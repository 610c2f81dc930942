import Oseo.RuntimeMemory.EphemeronRuns
import Oseo.RuntimeMemory.FinalizationRuns
import Oseo.EventLoop.TimerRuns
import Oseo.AgentCluster.WaiterRuns
import Oseo.KeyedCollections.CollectionRuns
import Oseo.ModuleLinking.LinkTheorems
import Oseo.ModuleLinking.PassTheorems
import Oseo.ModuleOrdering.Components
import Oseo.ModuleEvaluation.AncestorTheorems
import Oseo.RegExpMatcher.ProgramRuns
import Oseo.RegExpMatcher.AlignmentRuns
import Oseo.UriCoding.UriTheorems
import Oseo.CacheLock.Acquire
import Oseo.NumberFormatting.RadixTheorems
import Oseo.NumberFormatting.DecimalTheorems
import Oseo.PropertyStorage.GenericSetRuns
import Oseo.RegExpMatcher.ClassSetTheorems
import Oseo.RegExpMatcher.ClassValueTheorems
import Oseo.ArraySorting.SortTheorems
import Oseo.RegExpMatcher.AnchoredRepeat
import Oseo.PropertyStorage.EnumerationRuns
import Oseo.BinaryText.EncodingTheorems
import Oseo.DateTime.RoundTrips
import Oseo.BigInts.BitwiseTheorems
import Oseo.BigInts.TextTheorems
import Oseo.BigInts.NumberConversions
import Oseo.RegExpParsing.ScanTheorems
import Oseo.FromAsync.Closure
