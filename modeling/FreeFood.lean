import FreeFood.Lib.Transition
import FreeFood.Lib.Document
import FreeFood.Lib.Collection
import FreeFood.Lib.Tickets
import FreeFood.Lib.UuidText
import FreeFood.Lib.Placeholder
import FreeFood.Lib.Broadcast
import FreeFood.Lib.Toggle
import FreeFood.Lib.Leading
import FreeFood.Lib.OrderedList
import FreeFood.Lib.Scan
import FreeFood.Lib.IndexEdit
import FreeFood.Lib.Binary64
import FreeFood.Lib.ValueOrder
import FreeFood.Lib.Overlay
import FreeFood.Platform
import FreeFood.Landmark
import FreeFood.FoodEventModel
import FreeFood.SignInModel
import FreeFood.AuthCalls
import FreeFood.HomeView
import FreeFood.RegistrationView
import FreeFood.SelectMultipleList
import FreeFood.DataFetch
import FreeFood.LocationSearchView
import FreeFood.FoodSubmissionView
import FreeFood.InfoEditor
import FreeFood.LandmarkIds
import FreeFood.FreeFoodApp
import FreeFood.AuthButtons
import FreeFood.Deployment
import FreeFood.MissingSession
import FreeFood.FoodEventViewModel
import FreeFood.FeedListeners
import FreeFood.Submissions
import FreeFood.Profiles
import FreeFood.Forms
import FreeFood.FormSubmit
import FreeFood.FavoriteFoods
import FreeFood.Firestore.LlrbNode
import FreeFood.Firestore.SortedMap
import FreeFood.Firestore.DocumentSet
import FreeFood.Firestore.Query
import FreeFood.Firestore.FieldValue
import FreeFood.Firestore.ObjectValue
import FreeFood.Firestore.FeedQuery
import FreeFood.Firestore.FieldFilter
import FreeFood.Firestore.ViewSnapshot
import FreeFood.Firestore.View
import FreeFood.Firestore.SyncEngine
import FreeFood.Firestore.QueryLimit
import FreeFood.Firestore.QuerySnapshot
import FreeFood.Firestore.QueryListener
import FreeFood.Firestore.EventManager
import FreeFood.Firestore.Mutation
import FreeFood.Firestore.MutationQueue
import FreeFood.Firestore.LocalStore
import FreeFood.Firestore.LocalQuery
import FreeFood.Firestore.LocalView
import FreeFood.Firestore.PendingWrites
import FreeFood.Firestore.WatchChanges
