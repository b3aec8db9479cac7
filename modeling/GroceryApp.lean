import GroceryApp.Data.GroceryVO
import GroceryApp.Data.SwiftInt
import GroceryApp.Data.SwiftString
import GroceryApp.FirestoreCore.ClientRuns
import GroceryApp.FirestoreCore.ClientSteps
import GroceryApp.FirestoreCore.EngineRuns
import GroceryApp.FirestoreCore.EngineSteps
import GroceryApp.FirestoreCore.EventManager
import GroceryApp.FirestoreCore.Listening
import GroceryApp.FirestoreCore.LocalDocuments
import GroceryApp.FirestoreCore.LocalStore
import GroceryApp.FirestoreCore.Mutation
import GroceryApp.FirestoreCore.MutationQueue
import GroceryApp.FirestoreCore.OwnWrites
import GroceryApp.FirestoreCore.PendingWrites
import GroceryApp.FirestoreCore.QuerySnapshot
import GroceryApp.FirestoreCore.SnapshotChanges
import GroceryApp.FirestoreCore.StoreOperations
import GroceryApp.FirestoreCore.SyncEngine
import GroceryApp.FirestoreCore.View
import GroceryApp.FirestoreCore.ViewChanges
import GroceryApp.FirestoreCore.WritePipeline
import GroceryApp.Lib.BlindWrite
import GroceryApp.Lib.KeyTree
import GroceryApp.Lib.Lexicographic
import GroceryApp.Lib.Outbox
import GroceryApp.Lib.Pieces
import GroceryApp.Lib.Runs
import GroceryApp.Lib.Schedules
import GroceryApp.Lib.SortedMap
import GroceryApp.Lib.Transducers
import GroceryApp.Network.ApiCalls
import GroceryApp.Network.CloudFireStore
import GroceryApp.Network.DatabaseFrame
import GroceryApp.Network.FirebaseApi
import GroceryApp.Network.FirebaseAuth
import GroceryApp.Network.Firestore
import GroceryApp.Network.ListedRows
import GroceryApp.Network.OrderIndependence
import GroceryApp.Network.RealtimeDatabase
import GroceryApp.Network.SegmentNames
import GroceryApp.Network.UploadStages
import GroceryApp.Spec.GroceryMap
import GroceryApp.ViewModels.AuthWorld
import GroceryApp.ViewModels.FormSave
import GroceryApp.ViewModels.FormSessions
import GroceryApp.ViewModels.GroceryViewModel
import GroceryApp.ViewModels.HomeScreen
import GroceryApp.ViewModels.Images
import GroceryApp.ViewModels.LastPicture
import GroceryApp.ViewModels.LoginRefinement
import GroceryApp.ViewModels.LoginScreen
import GroceryApp.ViewModels.LostUpdate
import GroceryApp.ViewModels.RegistrationTarget
import GroceryApp.ViewModels.Registrations
import GroceryApp.ViewModels.Resurrection
import GroceryApp.ViewModels.Sessions
import GroceryApp.ViewModels.SnapshotListener
import GroceryApp.Views.ContentView
