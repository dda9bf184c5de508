import DrawLang.Text.Basic
import DrawLang.Text.Quoted
import DrawLang.Text.Position
import DrawLang.Text.Hidden
import DrawLang.Number.Written
import DrawLang.Color
import DrawLang.Builtin
import DrawLang.Json
import DrawLang.Shape
import DrawLang.Fault
import DrawLang.Token.Scan
import DrawLang.Tree.OfTokens
import DrawLang.Tree.Printed
import DrawLang.Tree.Outline
import DrawLang.Value.Shown
import DrawLang.Evaluation
import DrawLang.Script
import DrawLang.Session
import DrawLang.Folder
import DrawLang.Main
import DrawLang.Proofs.Evaluation.Balance
import DrawLang.Proofs.Evaluation.Agreement
import DrawLang.Proofs.Value.Later
import DrawLang.Proofs.Evaluation.Later
import DrawLang.Proofs.Evaluation.Services
import DrawLang.Proofs.Environment.Lookup
import DrawLang.Proofs.Reference.Basic
import DrawLang.Proofs.Tree.Free
import DrawLang.Proofs.Reference.Matching
import DrawLang.Proofs.Reference.Simulation
import DrawLang.Proofs.Reference.Closures
import DrawLang.Proofs.Evaluation.Scoped
import DrawLang.Proofs.Grammar.Derivation
import DrawLang.Proofs.Grammar.Unique
import DrawLang.Proofs.Grammar.Reading
import DrawLang.Proofs.Grammar.Acceptance
import DrawLang.Proofs.Reference.BigStep
import DrawLang.Proofs.Reference.Adequacy
import DrawLang.Proofs.Action.Meeting
import DrawLang.Proofs.Value.Inherited
import DrawLang.Proofs.Tree.Placed
import DrawLang.Proofs.Steps.Basic
import DrawLang.Proofs.Steps.Levels
import DrawLang.Proofs.Steps.Placed
import DrawLang.Proofs.Text.Boundary
import DrawLang.Proofs.Steps.Termination
import DrawLang.Proofs.Token.Row
import DrawLang.Proofs.Token.Marked
import DrawLang.Proofs.Grammar.Offsets
import DrawLang.Proofs.Grammar.Passing
import DrawLang.Proofs.Grammar.OfText
import DrawLang.Proofs.Invocation.Positions
import DrawLang.Proofs.Evaluation.Pointing
import DrawLang.Proofs.Token.Local
import DrawLang.Proofs.Token.Part
import DrawLang.Proofs.Tree.Part
import DrawLang.Proofs.Grammar.Moved
import DrawLang.Proofs.Grammar.Parts
import DrawLang.Proofs.Token.Fits
import DrawLang.Proofs.Token.Longest
import DrawLang.Proofs.Token.Scanner
import DrawLang.Proofs.Text.Joined
import DrawLang.Proofs.Token.Joined
import DrawLang.Proofs.Token.Written
import DrawLang.Proofs.Grammar.Literal
import DrawLang.Proofs.Evaluation.Shown
import DrawLang.Proofs.Value.Within
import DrawLang.Proofs.Steps.Values
import DrawLang.Proofs.Grammar.Layout
import DrawLang.Proofs.Action.Heeding
import DrawLang.Proofs.Evaluation.Requests
import DrawLang.Proofs.Invocation.Made
import DrawLang.Proofs.Evaluation.Flat
import DrawLang.Proofs.CommandLine.Codes
import DrawLang.Proofs.Grammar.Stuck
import DrawLang.Proofs.Grammar.Continued
import DrawLang.Proofs.Grammar.Hopeless
import DrawLang.Proofs.Grammar.Report
import DrawLang.Proofs.Bernoulli.Calls
import DrawLang.Proofs.Grammar.Printed
import DrawLang.Proofs.Action.Carrying
import DrawLang.Proofs.Evaluation.Limit
import DrawLang.Proofs.Number.Whole
import DrawLang.Proofs.Invocation.Slice
import DrawLang.Proofs.Invocation.Calm
import DrawLang.Proofs.Invocation.Joining
import DrawLang.Proofs.Invocation.Blame
import DrawLang.Proofs.Bernoulli.Binomial
import DrawLang.Proofs.Invocation.Tables
import DrawLang.Proofs.Text.Lines
import DrawLang.Proofs.Value.Displayed
import DrawLang.Proofs.Token.Lines
import DrawLang.Proofs.Grammar.Formed
import DrawLang.Proofs.Evaluation.Nesting
