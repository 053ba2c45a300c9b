import Voker.Ecs.Entity.Exhaustion
import Voker.Ecs.Entity.Remote
import Voker.Ecs.World.Empty
import Voker.Ecs.Observer.Watching
import Voker.Ecs.Observer.Trigger
import Voker.Ecs.World.InsertEvents
import Voker.Ecs.World.Ticks
import Voker.Ecs.Message.Reading
import Voker.Ecs.Command.Once
import Voker.Ecs.System.Parallel
import Voker.Ecs.Query.Iter
import Voker.Ecs.Schedule.Graph.Endless
import Voker.Ecs.Schedule.Agreement
import Voker.Ecs.Schedule.Ordered
import Voker.State.Derived
import Voker.Asset.Dependents
import Voker.Asset.Normalize
import Voker.Asset.Nested
import Voker.Asset.Processor
import Voker.Asset.Memory
import Voker.Asset.Reader
import Voker.Os.Once
import Voker.Time.Fixed
import Voker.Utils.PagePool
import Voker.App.MainSchedule
