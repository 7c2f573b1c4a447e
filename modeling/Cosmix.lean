import Cosmix.EditCore.AnchorValidity
import Cosmix.EditCore.Navigation
import Cosmix.EditCore.History
import Cosmix.EditCore.Memory
import Cosmix.EditCore.Pieces
import Cosmix.Props.RevWrite
import Cosmix.Props.Writers
import Cosmix.Props.Dispatcher
import Cosmix.Props.StoreEquality
import Cosmix.Props.Redact
import Cosmix.Bus.RoundTrip
import Cosmix.Bus.Address
import Cosmix.Bus.Transcript
import Cosmix.Noded.ReverseIndex
import Cosmix.Noded.Replay
import Cosmix.Noded.Order
import Cosmix.Noded.ActiveIdle
import Cosmix.Noded.Ratchet
import Cosmix.Noded.Mutations
import Cosmix.Noded.Admission
import Cosmix.MeshTrust.Lockout
import Cosmix.Foreman.Scratch
import Cosmix.Foreman.Charges
import Cosmix.Blobd.Attributes
import Cosmix.Blobd.Quota
import Cosmix.Blobd.Commit
import Cosmix.Mds.BlobIndex
import Cosmix.Musicd.Identity
import Cosmix.Musicd.Timeline
import Cosmix.Interaction.Decision
import Cosmix.Maild.Told
import Cosmix.Maild.Corpus
import Cosmix.Maild.Stuffing
