import AriaShell.Stream.RingBuffer
import AriaShell.Stream.Fifo
import AriaShell.Stream.Spsc
import AriaShell.Stream.Drainer
import AriaShell.Stream.Pipes
import AriaShell.Stream.Lifecycle
import AriaShell.Stream.Process
import AriaShell.Stream.Flush
import AriaShell.Stream.Capture
import AriaShell.Job.StateMachine
import AriaShell.Job.Manager
import AriaShell.Job.Locking
import AriaShell.Job.Transitions
import AriaShell.Job.Events
import AriaShell.Job.ProcessGroup
import AriaShell.Job.Spawn
import AriaShell.Job.Builtins
import AriaShell.Job.Hangs
import AriaShell.Bootstrap.Text
import AriaShell.Bootstrap.HandleMap
import AriaShell.Bootstrap.Launch
import AriaShell.Bootstrap.CommandLine
import AriaShell.Bootstrap.Handles
import AriaShell.Parser.Token
import AriaShell.Parser.Lexer
import AriaShell.Parser.Ast
import AriaShell.Parser.Parser
import AriaShell.Parser.Spec
import AriaShell.Parser.Operators
import AriaShell.Executor.Executor
import AriaShell.Executor.Safety
import AriaShell.Executor.Arithmetic
import AriaShell.Executor.Frame
import AriaShell.Executor.Fuel
import AriaShell.Executor.Bindings
import AriaShell.Executor.PathLookup
import AriaShell.Parser.Termination
import AriaShell.Parser.Grammar
import AriaShell.Parser.LexerRun
import AriaShell.Parser.Whitespace
import AriaShell.Parser.Positions
import AriaShell.Repl.Terminal
import AriaShell.Repl.EditBuffer
import AriaShell.Repl.InputEngine
import AriaShell.Repl.InputLoop
import AriaShell.Repl.Shell
import AriaShell.Repl.Script
