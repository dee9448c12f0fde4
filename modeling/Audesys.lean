import Audesys.Lib.Run
import Audesys.Lib.Trace
import Audesys.Lib.Patch
import Audesys.Lib.Kahn
import Audesys.Lib.DepthFirst
import Audesys.Lib.Refed
import Audesys.Lib.Turn
import Audesys.Lib.Leads
import Audesys.Hal.Host
import Audesys.Hal.Executor
import Audesys.Runtime.HotSwap
import Audesys.Runtime.Ipc.Pairing
import Audesys.Runtime.Ipc.Authorization
import Audesys.Runtime.Ipc.Isolation
import Audesys.St.CondRun
import Audesys.Hal.Steps
import Audesys.Hal.Calls
import Audesys.Hal.Confined
import Audesys.Hal.Timers
import Audesys.Hal.Counters
import Audesys.Hal.Bytes
import Audesys.Hal.Encoding
import Audesys.Runtime.Ipc.Utf8
import Audesys.Runtime.Client.Snapshot
import Audesys.Runtime.Client.Consumed
import Audesys.Ld.PowerFlow
import Audesys.Ld.Sorting
import Audesys.Ld.Parallel
import Audesys.Ld.EdgePulse
import Audesys.Lib.Words
import Audesys.Il.Words
import Audesys.Il.Labels
import Audesys.Il.Comments
import Audesys.Il.Control
import Audesys.Il.Registers
import Audesys.Ld.Ladder
import Audesys.Hal.Debug
import Audesys.Hal.DebugTrace
import Audesys.Runtime.HmiLayout
import Audesys.Cnc.Homing
import Audesys.Cnc.Limits
import Audesys.Cnc.Backlash
import Audesys.Cnc.Alarm
import Audesys.Cnc.Combined
import Audesys.Fbd.Outputs
import Audesys.Sfc.Compiler
import Audesys.Graphical.Constants
import Audesys.Sfc.Scan
import Audesys.Amw.Stream
import Audesys.Amw.Qos
import Audesys.Lib.Spread
import Audesys.Runtime.Lifecycle
import Audesys.Runtime.VirtualModbus
import Audesys.Runtime.ModbusReads
import Audesys.Runtime.Faults
import Audesys.Modbus.Mapping
import Audesys.Modbus.Adapter
import Audesys.Hal.F64
import Audesys.Hal.Reals
import Audesys.Cnc.Profile
import Audesys.Cnc.Cycle
import Audesys.Cnc.Trapezoid
import Audesys.Cnc.Triangle
import Audesys.Hal.Relocate
import Audesys.Gcode.Token
import Audesys.Gcode.Parser
import Audesys.Gcode.Compiler
import Audesys.Gcode.Splice
import Audesys.Gcode.Rapid
import Audesys.Gcode.Inherit
import Audesys.Gcode.Lines
import Audesys.Gcode.SharedLines
import Audesys.Gcode.Arcs
import Audesys.Editor.GModelState
import Audesys.Editor.Ids
import Audesys.FbdEditor.Operations
import Audesys.FbdEditor.Ids
import Audesys.FbdEditor.Wiring
import Audesys.FbdEditor.Gates
import Audesys.FbdEditor.Compile
import Audesys.FbdEditor.Cycles
import Audesys.LdEditor.Coils
import Audesys.LdEditor.Mirror
import Audesys.LdEditor.BranchWires
import Audesys.LdEditor.Branches
import Audesys.LdEditor.Reorder
import Audesys.LdEditor.Boxes
import Audesys.LdLayout.Overlap
import Audesys.Hart.Client
import Audesys.FieldBus.RoundTrip
import Audesys.St.Brackets
import Audesys.St.BoolAssign
import Audesys.Runtime.Config
import Audesys.Agent.Monitor
import Audesys.Agent.Status
import Audesys.Debug.Breakpoints
import Audesys.VarTable.Model
import Audesys.VarTable.Blocks
import Audesys.VarTable.RoundTrip
import Audesys.VarTable.Declared
import Audesys.VarTable.Kept
import Audesys.VarTable.Panel
import Audesys.Lib.Scanner
import Audesys.Lib.Settle
import Audesys.Lib.Utf16
import Audesys.Lib.Json
import Audesys.Hmi.Layout
import Audesys.Lib.Bits
import Audesys.Debug.Framing
import Audesys.Debug.Reconnect
import Audesys.Hal.Division
import Audesys.Lib.Window
import Audesys.Lib.Parsing
import Audesys.St.Lexer
import Audesys.St.Positions
import Audesys.St.Parser
import Audesys.St.Progress
import Audesys.St.Printing
import Audesys.St.FunctionCalls
import Audesys.St.Obstacles
import Audesys.St.Panics
import Audesys.St.Assignments
import Audesys.St.Literals
import Audesys.St.Writes
import Audesys.St.Discipline
import Audesys.St.Publishing
import Audesys.Hal.ArrayAccess
import Audesys.Runtime.Scenes
import Audesys.Runtime.Ipc.Panics
import Audesys.LdEditor.Boxes
import Audesys.Runtime.Pausing
import Audesys.Runtime.Cycle
