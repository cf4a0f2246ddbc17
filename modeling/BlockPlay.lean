import BlockPlay.Main
import BlockPlay.Graph.Arena
import BlockPlay.Run.Script
import BlockPlay.Proofs.Program.Unroll
import BlockPlay.Proofs.Program.Idle
import BlockPlay.Proofs.Compile.Validity
import BlockPlay.Proofs.Compile.Consulted
import BlockPlay.Proofs.Compile.Shapes
import BlockPlay.Proofs.Compile.Precedence
import BlockPlay.Proofs.Compile.Retreat
import BlockPlay.Proofs.Command.Stages
import BlockPlay.Proofs.Run.Fold
import BlockPlay.Proofs.Run.Stopping
import BlockPlay.Proofs.Run.Supported
import BlockPlay.Proofs.Run.Renaming
import BlockPlay.Proofs.Grid.Rotation
import BlockPlay.Proofs.Grid.Yield
import BlockPlay.Proofs.Canvas.Strokes
import BlockPlay.Proofs.Graph.Saving
import BlockPlay.Proofs.Graph.Worklist
import BlockPlay.Proofs.Graph.Building
import BlockPlay.Proofs.Program.Nesting
import BlockPlay.Proofs.Graph.Shape
