import JniDegger.Runs
import JniDegger.InternTable
import JniDegger.FakeEnv
import JniDegger.HandleTables
import JniDegger.TraceLog
import JniDegger.ClosedHandles
import JniDegger.Registry
import JniDegger.Scripts
import JniDegger.Relocation
import JniDegger.TableReads
import JniDegger.Renaming
import JniDegger.Sessions
import JniDegger.JavaText
import JniDegger.SignatureFake
import JniDegger.SignatureCodec
import JniDegger.FakedSignature
import JniDegger.PmsProxy
import JniDegger.Attribution
import JniDegger.CallForms
import JniDegger.PendingException
import JniDegger.SignatureLanguage
import JniDegger.HookInstall
import JniDegger.ProxyStack
import JniDegger.Interleaving
import JniDegger.ThreadPool
import JniDegger.PoolInvariants
import JniDegger.PoolProgress
import JniDegger.A64
import JniDegger.WordMemory
import JniDegger.StackFrames
import JniDegger.Arm64Assembler
import JniDegger.Arm64Relocation
import JniDegger.Arm64Words
import JniDegger.Arm64Simulation
import JniDegger.Arm64Trampoline
import JniDegger.ClosureTrampoline
import JniDegger.ClosureRuns
import JniDegger.MemoryAllocator
import JniDegger.ArenaInvariants
import JniDegger.AllocatorRuns
import JniDegger.Layers
import JniDegger.Interceptor
import JniDegger.CodeBlocks
import JniDegger.HookedProcess
import JniDegger.HookRuns
import JniDegger.InstrumentRuns
import JniDegger.SymbolResolver
import JniDegger.SymbolLookup
