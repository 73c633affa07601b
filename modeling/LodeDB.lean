import LodeDB.Filter.DocumentPlan
import LodeDB.Engine.Spared
import LodeDB.Engine.TextBlind
import LodeDB.Engine.AppendFold
import LodeDB.Cloud.Redaction
import LodeDB.Cloud.ExportSound
import LodeDB.Graph.Synced
import LodeDB.Graph.Reindex
import LodeDB.Graph.Outcomes
import LodeDB.Cloud.Paths
import LodeDB.Cloud.SyncAgain
import LodeDB.Cloud.Restore
import LodeDB.Lexical.Fusion
import LodeDB.Storage.Wal
import LodeDB.Text.Tokens
import LodeDB.Engine.HandleRuns
import LodeDB.Knowledge.Graph
