import RobotBlocks.CommandLine.FileTree
import RobotBlocks.Main
import RobotBlocks.Proofs.Block.Mutated
import RobotBlocks.Proofs.ClassType.Resolution
import RobotBlocks.Proofs.CommandLine.ClassNames
import RobotBlocks.Proofs.Device.Resolution
import RobotBlocks.Proofs.NameTable.Search
import RobotBlocks.Proofs.Program.DeadBlocks
import RobotBlocks.Proofs.Program.Identities
import RobotBlocks.Proofs.Program.Sections
import RobotBlocks.Proofs.Program.StorageOrder
import RobotBlocks.Proofs.Render.DeclaredInputs
import RobotBlocks.Proofs.Render.IntegerLiterals
import RobotBlocks.Proofs.Render.KnownImports
import RobotBlocks.Proofs.Render.NeutralValues
import RobotBlocks.Proofs.Render.Parentheses
import RobotBlocks.Proofs.Render.Quotients
import RobotBlocks.Proofs.StaticType.OrderFree
import RobotBlocks.Proofs.Text.DocComments
import RobotBlocks.Proofs.Text.Literals
