import DateCourse.Machine.Run
import DateCourse.Model.CurrentItinerary
import DateCourse.Store.Tree
import DateCourse.Model.DataModel
import DateCourse.Editor.SaveItinerary
import DateCourse.Editor.SaveChain
import DateCourse.Editor.SingleSave
import DateCourse.Editor.SaveCorrectness
import DateCourse.Feed.Thumbnail
import DateCourse.Feed.SavedCourses
import DateCourse.Editor.AddCourseItinerary
import DateCourse.Editor.Route
import DateCourse.Editor.Session
import DateCourse.Editor.SessionCorrectness
import DateCourse.Editor.SaveProgress
import DateCourse.Auth.Progress
import DateCourse.Auth.SignIn
import DateCourse.Auth.VerifiedAccounts
import DateCourse.Editor.ItineraryCell
import DateCourse.Editor.PhotoRecording
import DateCourse.Feed.CourseFeed
import DateCourse.Editor.MapScreen
import DateCourse.Editor.CellReuse
import DateCourse.Editor.ImageResizing
import DateCourse.Feed.ThumbnailReuse
import DateCourse.Editor.Header
import DateCourse.Editor.RowHeights
import DateCourse.Database.Key
import DateCourse.Database.PushId
import DateCourse.Store.SortedAssoc
import DateCourse.Store.PathMap
import DateCourse.Database.CompoundWrite
import DateCourse.Database.WriteTree
import DateCourse.Database.View
import DateCourse.Database.EventCache
import DateCourse.Database.SyncTree
import DateCourse.Database.SyncTreeRun
import DateCourse.Database.Replay
import DateCourse.Database.RetryHelper
import DateCourse.Database.PersistentConnection
import DateCourse.Database.PutDelivery
import DateCourse.Database.RepoView
