import Montage.Ease.Named
import Montage.Json.Reader
import Montage.Json.Writer
import Montage.Playback
import Montage.Proofs.Cache.Accounts
import Montage.Proofs.Element.Storage
import Montage.Proofs.Frame.Depiction
import Montage.Proofs.Frame.Exposure
import Montage.Proofs.Timeline.Coverage
import Montage.Proofs.Tree.Assembly
import Montage.Proofs.Tree.Listing
import Montage.Proofs.Tree.Reachability
import Montage.Proofs.Wire.Frame
import Montage.Proofs.Wire.Rereading
import Montage.Wire.Element
import Montage.Wire.Frame
import Montage.Wire.Settings
import Montage.Wire.Timeline
import Montage.Wire.Tree
import Montage.Proofs.Element.Gathering
import Montage.Proofs.Number.Spelling
import Montage.Proofs.Property.Animations
import Montage.Proofs.Template.Runs
import Montage.Proofs.Template.Tiling
import Montage.Proofs.Template.Walking
import Montage.Proofs.Number.Plain
import Montage.Proofs.Template.Refilling
import Montage.Proofs.Sampling.Kinds
import Montage.Proofs.Sampling.AtKeys
import Montage.Proofs.Keyframe.Passage
import Montage.Proofs.Digest.Streams
import Montage.Proofs.Tree.Recursion
import Montage.Proofs.Element.Edits
import Montage.Proofs.Property.Values
import Montage.Proofs.Property.Composites
import Montage.Proofs.Sampling.Interference
import Montage.Proofs.Tree.Pruning
import Montage.Proofs.Keyframe.Reversal
import Montage.Proofs.Schema.Routes
import Montage.Proofs.Keyframe.Overflow
import Montage.Proofs.Timeline.Overflow
