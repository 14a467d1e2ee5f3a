import TFDB.Incarnation
import TFDB.Evidence
import TFDB.Contract
import TFDB.Verify
import TFDB.Inverse
import TFDB.Decoders
import TFDB.Usable
import TFDB.Events
import TFDB.Barrier
import TFDB.Bounded
import TFDB.Groups
import TFDB.RustCodec
import TFDB.Directory
import TFDB.Reject
import TFDB.Metadata
import TFDB.Age
import TFDB.PrefixFree
import TFDB.Volume
import TFDB.Memory
import TFDB.Checksum
import TFDB.Sealed
import TFDB.Isolation
import TFDB.Refinement
import TFDB.Records
import TFDB.Crash
import TFDB.Available
import TFDB.Interop
import TFDB.Altered
import TFDB.Damage
import TFDB.Checkpoint
import TFDB.Reseal
import TFDB.Survive
import TFDB.Generations
