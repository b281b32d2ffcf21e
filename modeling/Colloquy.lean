import Colloquy.Exchange.Opening
import Colloquy.Exchange.Phrase
import Colloquy.Generation.Run
import Colloquy.Generation.Settings
import Colloquy.Registry.Metadata
import Colloquy.Value.Reading
import Colloquy.Proofs.Text.Blank
import Colloquy.Proofs.Date
import Colloquy.Proofs.Ty.Acceptance
import Colloquy.Proofs.Ty.Text
import Colloquy.Proofs.Value.Denotation
import Colloquy.Proofs.Value.Ground
import Colloquy.Proofs.Value.Kind
import Colloquy.Proofs.Value.Constant
import Colloquy.Proofs.Value.Placeholder
import Colloquy.Proofs.Value.Reading
import Colloquy.Proofs.Filter.Connective
import Colloquy.Proofs.Filter.Equality
import Colloquy.Proofs.Filter.Normal
import Colloquy.Proofs.Filter.Inherited
import Colloquy.Proofs.Filter.Neutral
import Colloquy.Proofs.Filter.Refinement
import Colloquy.Proofs.Filter.Slots
import Colloquy.Proofs.Filter.Clauses
import Colloquy.Proofs.Filter.Occurrence
import Colloquy.Proofs.Filter.Verdict
import Colloquy.Proofs.Filter.Atoms
import Colloquy.Proofs.Filter.Change
import Colloquy.Proofs.Filter.Pinned
import Colloquy.Proofs.Filter.Monotone
import Colloquy.Proofs.Filter.Satisfiability
import Colloquy.Proofs.Filter.Typing
import Colloquy.Proofs.Filter.Identity
import Colloquy.Proofs.Filter.Agreement
import Colloquy.Proofs.Filter.Possible
import Colloquy.Proofs.SlotBag.Addition
import Colloquy.Proofs.SlotBag.Permanence
import Colloquy.Proofs.SlotBag.Contents
import Colloquy.Proofs.SlotBag.Order
import Colloquy.Proofs.SlotBag.Description
import Colloquy.Proofs.Signature
import Colloquy.Proofs.Table.Attachment
import Colloquy.Proofs.Table.Leaves
import Colloquy.Proofs.Table.Refinement
import Colloquy.Proofs.Table.Typing
import Colloquy.Proofs.Call
import Colloquy.Proofs.Typing
import Colloquy.Proofs.Registry
import Colloquy.Proofs.Dialogue.History
import Colloquy.Proofs.Dialogue.Current
import Colloquy.Proofs.Dialogue.Preservation
import Colloquy.Proofs.Dialogue.PendingCall
import Colloquy.Proofs.Dialogue.Stream
import Colloquy.Proofs.Dialogue.Phases
import Colloquy.Proofs.Exchange.Turn
import Colloquy.Proofs.Exchange.Past
import Colloquy.Proofs.Exchange.Failure
import Colloquy.Proofs.Exchange.Opening
import Colloquy.Proofs.Exchange.Split
import Colloquy.Proofs.Generation.Run
import Colloquy.Proofs.Call.Binding
import Colloquy.Proofs.Grounding.Chaining
import Colloquy.Proofs.Exchange.DontCare
import Colloquy.Proofs.Grounding.Disjunction
