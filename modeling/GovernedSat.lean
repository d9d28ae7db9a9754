import GovernedSat.Assignment
import GovernedSat.Backtracking.Engine
import GovernedSat.Config.Binary64
import GovernedSat.Session.Basic
import GovernedSat.Solver.Scripted
import GovernedSat.Solver.Signature
import GovernedSat.Proofs.Backtracking.Trail
import GovernedSat.Proofs.Backtracking.Propagation
import GovernedSat.Proofs.Backtracking.Search
import GovernedSat.Proofs.Backtracking.Model
import GovernedSat.Proofs.Backtracking.Solve
import GovernedSat.Proofs.Solver.Calls
import GovernedSat.Proofs.Backtracking.Contract
import GovernedSat.Proofs.Process.Idle
import GovernedSat.Proofs.Search.Contract
import GovernedSat.Proofs.Search.Solving
import GovernedSat.Proofs.Restriction
import GovernedSat.Proofs.Search.Enumeration
import GovernedSat.Proofs.Minimality
import GovernedSat.Proofs.Search.Shrinking
import GovernedSat.Proofs.Search.Implicants
import GovernedSat.Proofs.Search.DualImplicants
import GovernedSat.Proofs.Search.Monotone
import GovernedSat.Proofs.Process.Drift
import GovernedSat.Proofs.Solver.Drift
import GovernedSat.Proofs.Search.Drift
import GovernedSat.Proofs.Governor.Keeping
import GovernedSat.Proofs.Search.Keeping
import GovernedSat.Proofs.Session.Slots
import GovernedSat.Proofs.Session.Keeping
import GovernedSat.Proofs.Session.Reachable
import GovernedSat.Proofs.Process.Pace
import GovernedSat.Proofs.Solver.Pace
import GovernedSat.Proofs.Search.Pace
import GovernedSat.Proofs.Search.StreamPace
import GovernedSat.Proofs.Governor.Preparing
import GovernedSat.Proofs.Session.Cut
import GovernedSat.Proofs.Governor.Moves
import GovernedSat.Proofs.Process.Lifetimes
import GovernedSat.Proofs.Solver.Moves
import GovernedSat.Proofs.Search.Law
import GovernedSat.Proofs.Search.Moves
import GovernedSat.Proofs.Search.Streams
import GovernedSat.Proofs.Search.Lifetimes
import GovernedSat.Proofs.Session.Lifetimes
import GovernedSat.Proofs.Search.Answers
import GovernedSat.Proofs.Search.Runs
import GovernedSat.Proofs.Search.Laziness
import GovernedSat.Proofs.Search.StreamMoves
import GovernedSat.Proofs.Search.Twins
import GovernedSat.Proofs.Session.Independence
import GovernedSat.Proofs.Process.Occasions
import GovernedSat.Proofs.Governor.Restoring
import GovernedSat.Proofs.Session.History
import GovernedSat.Proofs.Session.Undoing
import GovernedSat.Proofs.Search.Bounds
import GovernedSat.Proofs.Search.Outcomes
import GovernedSat.Proofs.Search.Interruptions
import GovernedSat.Proofs.Backtracking.Table
import GovernedSat.Proofs.Session.Safety
import GovernedSat.Proofs.Search.Calm
import GovernedSat.Proofs.Search.Refusals
import GovernedSat.Proofs.Session.Refusals
import GovernedSat.Proofs.Violations
import GovernedSat.Proofs.Dimacs
import GovernedSat.Proofs.Search.Stopping
import GovernedSat.Proofs.Search.Minims
import GovernedSat.Proofs.Search.Exchanges
import GovernedSat.Proofs.Search.Rounds
import GovernedSat.Proofs.Search.DualRounds
import GovernedSat.Proofs.Backtracking.Calls
import GovernedSat.Proofs.Backtracking.Values
import GovernedSat.Proofs.Valuations
import GovernedSat.Proofs.Governor.Polls
import GovernedSat.Proofs.Governor.Agreement
