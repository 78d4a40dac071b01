import Stemd.Semantics.Transition
import Stemd.Semantics.Framing
import Stemd.Semantics.Ledger
import Stemd.Semantics.Disk
import Stemd.Semantics.Stable
import Stemd.Semantics.Buffered
import Stemd.Semantics.Polyphase
import Stemd.Semantics.Rounding
import Stemd.Semantics.Rows
import Stemd.Semantics.Paths
import Stemd.Semantics.Timed
import Stemd.Semantics.Line
import Stemd.Core.Progress
import Stemd.Core.Format
import Stemd.Core.Float32
import Stemd.Core.Pcm
import Stemd.Core.Resample
import Stemd.Core.Mode1
import Stemd.Core.Exact
import Stemd.Core.Stems
import Stemd.Queue.Inner
import Stemd.Queue.Order
import Stemd.Queue.Calls
import Stemd.Queue.Fifo
import Stemd.Queue.Stop
import Stemd.Queue.Cancel
import Stemd.Queue.Handshake
import Stemd.Queue.Lone
import Stemd.Store.Cache
import Stemd.Store.Moves
import Stemd.Store.Sound
import Stemd.Store.Idle
import Stemd.Store.Atomic
import Stemd.Store.Staged
import Stemd.Store.Sized
import Stemd.Store.Present
import Stemd.Store.Bounded
import Stemd.Store.Rotation
import Stemd.Server.CacheKey
import Stemd.Server.Payload
import Stemd.Server.Jobs
import Stemd.Server.Machine
import Stemd.Server.Moves
import Stemd.Server.Identity
import Stemd.Server.Switching
import Stemd.Server.Ownership
import Stemd.Server.Registry
import Stemd.Server.Stranding
import Stemd.Server.Departure
import Stemd.Server.Waiters
import Stemd.Server.Deletion
import Stemd.Server.Once
import Stemd.Server.Parts
import Stemd.Mlx.Precision
import Stemd.Mlx.OverTrack
import Stemd.Mlx.Traced
import Stemd.Semantics.Tensor
import Stemd.Semantics.TensorOps
import Stemd.Semantics.Convolution
import Stemd.Semantics.Fallible
import Stemd.Mlx.OverlapAdd
import Stemd.Mlx.Stft
import Stemd.Mlx.Spectral
import Stemd.Mlx.Bands
import Stemd.Mlx.Roformer
import Stemd.Mlx.Layers
import Stemd.Mlx.Channels
import Stemd.Mlx.HtDemucs
import Stemd.Core.Faders
import Stemd.Core.Hybrid
import Stemd.Core.Wire
import Stemd.Core.Wav
import Stemd.Server.Submission
import Stemd.Models.Preset
import Stemd.Models.Identity
import Stemd.Models.Download
import Stemd.Models.Resolve
import Stemd.Preferences.Store
import Stemd.Preferences.Pins
import Stemd.Preferences.Writes
import Stemd.Core.Level
import Stemd.Server.Ids
import Stemd.Server.Drops
import Stemd.Server.Discard
import Stemd.Server.Views
import Stemd.Store.Reap
import Stemd.Core.Cancelled
import Stemd.Core.Single
import Stemd.Core.Bar
import Stemd.Server.Retention
import Stemd.Server.Fractions
import Stemd.Decode.EditList
import Stemd.Semantics.Sequences
import Stemd.Mlx.Attention
import Stemd.Mlx.Blocks
import Stemd.Mlx.Weights
import Stemd.Mlx.BsRoformer
import Stemd.Mlx.Positions
import Stemd.Mlx.CrossTransformer
import Stemd.Mlx.Segment
import Stemd.Semantics.WeightedMean
import Stemd.Mlx.Crossfade
import Stemd.Mlx.Chunks
import Stemd.Mlx.Artefact
import Stemd.Core.Whole
import Stemd.Core.Loaded
import Stemd.Server.Launch
import Stemd.Client.Assemble
import Stemd.Client.Accuracy
import Stemd.Client.Files
import Stemd.Client.Upload
import Stemd.Client.Wait
