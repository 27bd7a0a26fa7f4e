import DataBinding.Number.Numeral
import DataBinding.Session.Run
import DataBinding.Proofs.State.WrittenValues
import DataBinding.Proofs.Engine.ExactFiring
import DataBinding.Proofs.Template.TextRecovery
import DataBinding.Proofs.Template.CompiledAnew
import DataBinding.Proofs.Markup.RoundTrip
import DataBinding.Proofs.Engine.Soundness
import DataBinding.Proofs.Template.CompilationByRecursion
import DataBinding.Proofs.Template.LeftoverMarkers
import DataBinding.Proofs.Template.NoInjectedMarkup
import DataBinding.Proofs.Template.FailedCompilations
import DataBinding.Proofs.Lifetime.RemainingListeners
import DataBinding.Proofs.Lifetime.LastHandle
import DataBinding.Proofs.Engine.ClearedScopes
import DataBinding.Proofs.Template.DialectIndependence
import DataBinding.Proofs.Engine.DefinedKeys
import DataBinding.Proofs.Engine.Tracking
import DataBinding.Proofs.Engine.FailureIsolation
import DataBinding.Proofs.State.SnapshotObservation
import DataBinding.Proofs.State.SnapshotReads
import DataBinding.Proofs.Engine.SubscriberLists
import DataBinding.Proofs.Markup.Entities
import DataBinding.Proofs.State.ComposedTemplates
import DataBinding.Proofs.Template.WatchedReads
import DataBinding.Proofs.Template.DirectivesAndBraces
import DataBinding.Proofs.Template.OutsideTemplate
import DataBinding.Proofs.Markup.ByteBoundaries
import DataBinding.Proofs.Template.RootOnTop
import DataBinding.Proofs.Template.InPlace
import DataBinding.Proofs.Engine.EventDispatch
import DataBinding.Proofs.Document.Preorder
import DataBinding.Proofs.Engine.ObjectGrowth
