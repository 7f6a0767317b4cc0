import Cubicle.JsonBytes
import Cubicle.ManagerGrants
import Cubicle.OutputFollowing
import Cubicle.DeskManagedBlocks
import Cubicle.ConnectInput
import Cubicle.DeskPanes
import Cubicle.TerminalSnapshots
import Cubicle.MacroLists
import Cubicle.EventQueries
import Cubicle.ControllerJournal
import Cubicle.SnapshotRoundTrips
import Cubicle.SessionSaves
import Cubicle.ProcessReports
import Cubicle.AutostartRecords
import Cubicle.AttachmentReads
import Cubicle.ControllerRelays
import Cubicle.DeskRefreshes
import Cubicle.ControllerQueries
import Cubicle.CubeReferences
import Cubicle.DeskRendering
import Cubicle.RemoteRegistries
import Cubicle.DeskBoundKeys
import Cubicle.DeskAccounts
