import Colloquy.Filter.Refine
import Colloquy.Table.Basic

namespace Colloquy.Table

/-- The node at which filters end: reached through sorting, indexing, slicing, projecting, computing
and naming, and through the right side of joins. -/
def tip : Table → Table
  | sort t _ _ => t.tip
  | index t _ => t.tip
  | slice t _ _ => t.tip
  | project t _ => t.tip
  | compute t _ _ => t.tip
  | named t _ => t.tip
  | join _ t _ => t.tip
  | t => t

def replaceTip : (t new : Table) → Table
  | sort t field direction, new => sort (t.replaceTip new) field direction
  | index t indices, new => index (t.replaceTip new) indices
  | slice t base limit, new => slice (t.replaceTip new) base limit
  | project t fields, new => project (t.replaceTip new) fields
  | compute t expression label, new => compute (t.replaceTip new) expression label
  | named t name, new => named (t.replaceTip new) name
  | join l t params, new => join l (t.replaceTip new) params
  | _, new => new

/-- Queries over time and sequences of queries, which cannot be refined. -/
inductive Unsupported
  | sequence
  | history
  | window
  | timeSeries
deriving DecidableEq

namespace Unsupported

def name : Unsupported → String
  | sequence => "SequenceTable"
  | history => "HistoryTable"
  | window => "WindowTable"
  | timeSeries => "TimeSeriesTable"

def message (u : Unsupported) : String :=
  "Cannot refine a query containing " ++ u.name

end Unsupported

/-- A query with the one filter that a refinement changes. -/
structure Attachment where
  root : Table
  base : Table
  filter : Filter

/-- The filter at the tip. A bare call at the tip gets a filter that is always true; results of
aggregations and references to other queries take no filter. -/
def attachment (t : Table) : Except Unsupported (Option Attachment) :=
  match t.tip with
  | filter base f => .ok (some ⟨t, base, f⟩)
  | invoke c => .ok (some ⟨t.replaceTip (filter (invoke c) .always), invoke c, .always⟩)
  | sequence _ _ => .error .sequence
  | history _ _ _ => .error .history
  | window _ _ _ => .error .window
  | timeSeries _ _ _ => .error .timeSeries
  | _ => .ok none

def Attachment.withFilter (a : Attachment) (f : Filter) : Table :=
  a.root.replaceTip (.filter a.base f)

/-- The projection of a refined query. Fields asked for take the place of those before; otherwise
the fields that the filter now settles are dropped. -/
def reproject (t : Table) (refined : Filter) (fields : List String) : Table :=
  if !fields.isEmpty then t.projectOn fields
  else
    match t.projection? with
    | none => t
    | some old =>
      let remaining := old.filter (!refined.mentions ·)
      if remaining.isEmpty then t.unprojected else t.projectOn remaining

inductive Refined
  | table (t : Table)
  | refused
  | noPlace

def refineWith (t : Table) (new : Filter) (combine : Filter → Filter → Option Filter)
    (fields : List String) : Except Unsupported Refined := do
  match ← t.attachment with
  | none => .ok .noPlace
  | some a =>
    match combine a.filter new with
    | none => .ok .refused
    | some refined => .ok (.table ((a.withFilter refined).reproject refined fields))

def refine (t : Table) (new : Filter) (strategy : Filter.Strategy) (fields : List String) :
    Except Unsupported Refined :=
  t.refineWith new strategy.combine fields

end Colloquy.Table
