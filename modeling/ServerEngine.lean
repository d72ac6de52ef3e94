import ServerEngine.Contribution.Equivalent
import ServerEngine.Graph.NoFail
import ServerEngine.Runtime.Aliases
import ServerEngine.Builder.GraphInvariants
import ServerEngine.Builder.EnumInvariant
import ServerEngine.Frontend.CacheHistory
import ServerEngine.Runtime.InitialValues
import ServerEngine.Storage.VectorRuns
import ServerEngine.Config.ServerSchema
import ServerEngine.Core.Crc64Slicing
import ServerEngine.Runtime.ScalarAccess
import ServerEngine.Strings.Exhaustion
import ServerEngine.Identities.Canonical
import ServerEngine.Lifecycle.Safety
import ServerEngine.Parser.DirectiveRemoval
import ServerEngine.Parser.ImportClosure
import ServerEngine.Source.HashStandard
import ServerEngine.Frontend.BlockStack
import ServerEngine.Storage.ArenaRuns
import ServerEngine.Persistence.ActivatedBaselines
import ServerEngine.Persistence.CrashAtomic
import ServerEngine.Source.AcyclicRuns
import ServerEngine.Source.PathHistory
import ServerEngine.Persistence.ChangeStateRoundTrip
import ServerEngine.Persistence.SelectorReaders
import ServerEngine.Source.OverlayCapture
import ServerEngine.Persistence.TransactionIo
