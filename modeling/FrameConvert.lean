import FrameConvert.Split
import FrameConvert.Environment
import FrameConvert.Transfer.Interleave
import FrameConvert.Transfer.Packed
import FrameConvert.Transfer.Pixels
import FrameConvert.Transfer.ToPixels
import FrameConvert.Transfer.FromPixels
import FrameConvert.Lanes.WordShift
import FrameConvert.Lanes.ByteTable
import FrameConvert.Lanes.PixelSwap
import FrameConvert.Lanes.Row
import FrameConvert.Engine
import FrameConvert.Frame.Session
import FrameConvert.Engine.Session
import FrameConvert.Registry.Session
import FrameConvert.Main
import FrameConvert.Proofs.Frames
import FrameConvert.Proofs.Grid
import FrameConvert.Proofs.View
import FrameConvert.Proofs.Planar
import FrameConvert.Proofs.Interleave
import FrameConvert.Proofs.Reorder
import FrameConvert.Proofs.Colours
import FrameConvert.Proofs.Lanes.Registers
import FrameConvert.Proofs.Lanes.Words
import FrameConvert.Proofs.Lanes.Swap
import FrameConvert.Proofs.Lanes.Rows
import FrameConvert.Proofs.Methods
import FrameConvert.Proofs.Selection
import FrameConvert.Proofs.Kernels
import FrameConvert.Proofs.Hub
import FrameConvert.Proofs.Independence
import FrameConvert.Proofs.InPlace
import FrameConvert.Proofs.Safety
import FrameConvert.Proofs.Footprint
import FrameConvert.Proofs.Content
import FrameConvert.Proofs.Journey
import FrameConvert.Proofs.Interchange
import FrameConvert.Proofs.Alpha
import FrameConvert.Proofs.Generations
import FrameConvert.Proofs.ThroughColour
import FrameConvert.Proofs.Chroma
import FrameConvert.Proofs.Luma
import FrameConvert.Proofs.Joined
import FrameConvert.Proofs.Transparency
import FrameConvert.Proofs.Sessions
import FrameConvert.Proofs.Precedence
import FrameConvert.Proofs.Registrations
import FrameConvert.Proofs.Masks
import FrameConvert.Proofs.Overrides
import FrameConvert.Proofs.Lanes.RowPrefix
import FrameConvert.Proofs.Lanes.Lengths
import FrameConvert.Proofs.Staging
import FrameConvert.Proofs.ColourFormula
import FrameConvert.Proofs.SampleFormula
import FrameConvert.Proofs.Resampling
import FrameConvert.Proofs.LegalRange
import FrameConvert.Proofs.ColourError
import FrameConvert.Proofs.Demo.Disk
import FrameConvert.Proofs.Demo.Pictures
import FrameConvert.Proofs.Demo.Trials
import FrameConvert.Proofs.Demo.Runs
