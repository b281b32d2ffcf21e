import Colloquy.Generation.Run
import Colloquy.Proofs.Dialogue.Preservation
import Mathlib.Algebra.GroupWithZero.Nat
import Mathlib.Data.List.Infix

namespace Colloquy

namespace Candidate

def accepted? (catalog : List String) (s : State) (c : Candidate) : Option Example :=
  (c.evaluate catalog s).toOption

def fault? (catalog : List String) (s : State) (c : Candidate) : Option Fault :=
  match c.evaluate catalog s with
  | .error (.fault f) => some f
  | _ => none

theorem rule_of_evaluate {catalog : List String} {s : State} {c : Candidate} {e : Example}
    (h : c.evaluate catalog s = .ok e) : e.rule = c.rule := by
  cases c with
  | unknown => cases h
  | fragment f =>
    rw [evaluate] at h
    split at h
    next =>
      cases hf : f.apply s with
      | error stop => rw [hf] at h; cases h
      | ok exchange =>
        rw [hf] at h
        cases h
        rfl
    next => cases h

end Candidate

namespace Entries

def total (counts : Entries Nat) : Nat :=
  (counts.map Prod.snd).sum

end Entries

namespace Run

section Counts

variable (counts : Entries Nat) (name other : String)

theorem count_countUp :
    count (countUp counts name) other = count counts other + if name = other then 1 else 0 := by
  unfold count countUp
  by_cases h : name = other
  · subst h
    simp
  · simp [Entries.get?_put_of_ne counts _ h, h]

theorem total_countUp : (countUp counts name).total = counts.total + 1 := by
  unfold countUp
  induction counts with
  | nil => simp [Entries.put, Entries.get?, Entries.total]
  | cons entry rest ih =>
    obtain ⟨n, k⟩ := entry
    by_cases h : n = name
    · subst h
      simp [Entries.put, Entries.get?, Entries.total]
      omega
    · simp only [Entries.put, Entries.get?, h, if_false, Entries.total, List.map_cons,
        List.sum_cons] at ih ⊢
      omega

end Counts

variable (catalog : List String) (limit : Nat)

/-- Whether a context that gave so many examples is asked for more. -/
def hasRoom (limit produced : Nat) : Bool :=
  limit == 0 || produced < limit

/-- The candidates that a context gets to, as long as none fails: there is room behind the examples of
those before. -/
def reached (s : State) (produced : Nat) (cs : List Candidate) : List Candidate :=
  ((cs.inits.zip cs).takeWhile fun (before, _) =>
    hasRoom limit (produced + (before.filterMap (·.accepted? catalog s)).length)).map Prod.snd

def attempts (work : List (State × List Candidate)) : List (State × Candidate) :=
  work.flatMap fun (s, cs) => (reached catalog limit s 0 cs).map (s, ·)

def attempt (r : Run) (s : State) (c : Candidate) : Run :=
  match c.evaluate catalog s with
  | .ok e => r.accept e
  | .error (.rejected note) => r.reject c.rule note
  | .error (.fault f) => { r with failure := some f }

def pass (r : Run) : List (State × Candidate) → Run
  | [] => r
  | (s, c) :: rest =>
    let r := attempt catalog r s c
    if r.failure.isSome then r else pass r rest

variable {catalog limit}

theorem reached_cons (s : State) (produced : Nat) (c : Candidate) (rest : List Candidate) :
    reached catalog limit s produced (c :: rest) =
      if hasRoom limit produced then
        c :: reached catalog limit s (produced + (c.accepted? catalog s).toList.length) rest
      else [] := by
  -- Every prefix of the rest has the examples of `c` before its own: they go over to the start.
  have hbefore : ∀ before : List Candidate,
      produced + ((c :: before).filterMap (·.accepted? catalog s)).length =
        produced + (c.accepted? catalog s).toList.length +
          (before.filterMap (·.accepted? catalog s)).length := by
    intro before
    cases h : c.accepted? catalog s with
    | none => simp [h]
    | some e =>
      simp only [List.filterMap_cons, h, List.length_cons, Option.toList_some, List.length_nil]
      omega
  unfold reached
  rw [List.inits_cons, List.zip_cons_cons, List.takeWhile_cons, List.zip_map_left,
    List.takeWhile_map]
  simp only [Function.comp_def, Prod.map_fst, hbefore, List.filterMap_nil, List.length_nil,
    Nat.add_zero]
  split
  next => simp
  next => rfl

theorem reached_of_not_hasRoom (s : State) {produced : Nat} (cs : List Candidate)
    (h : hasRoom limit produced = false) : reached catalog limit s produced cs = [] := by
  cases cs with
  | nil => rfl
  | cons c rest => simp [reached_cons, h]

theorem stops_eq_not_hasRoom (limit produced : Nat) :
    (limit != 0 && decide (limit ≤ produced)) = !hasRoom limit produced := by
  have hle : decide (limit ≤ produced) = !decide (produced < limit) := by
    rw [← decide_not, decide_eq_decide, Nat.not_lt]
  rw [hasRoom, Bool.not_or, hle]
  rfl

/-- The loop over the candidates of a context makes the attempts that it gets to. -/
theorem context_eq_pass (s : State) {produced : Nat} {r : Run} (cs : List Candidate)
    (hr : r.failure = none) (hroom : hasRoom limit produced = true) :
    context catalog limit s produced r cs =
      pass catalog r ((reached catalog limit s produced cs).map (s, ·)) := by
  induction cs generalizing produced r with
  | nil => rfl
  | cons c rest ih =>
    rw [reached_cons, if_pos hroom, List.map_cons, pass, context]
    cases h : c.evaluate catalog s with
    | ok e =>
      have hattempt : attempt catalog r s c = r.accept e := by rw [attempt, h]
      have haccepted : c.accepted? catalog s = some e := by rw [Candidate.accepted?, h]; rfl
      have hunfailed : (r.accept e).failure = none := hr
      simp only [hattempt, hunfailed, haccepted, stops_eq_not_hasRoom]
      -- The loop asks for room behind an example, and the pass before the next candidate.
      cases hnext : hasRoom limit (produced + 1) with
      | true => simpa using ih hunfailed hnext
      | false => simp [reached_of_not_hasRoom s rest hnext, pass]
    | error stop =>
      cases stop with
      | rejected note =>
        have hattempt : attempt catalog r s c = r.reject c.rule note := by rw [attempt, h]
        have haccepted : c.accepted? catalog s = none := by rw [Candidate.accepted?, h]; rfl
        have hunfailed : (r.reject c.rule note).failure = none := hr
        simp [hattempt, haccepted, hunfailed, ih hunfailed hroom]
      | fault f => simp [attempt, h]

theorem failure_attempt {r : Run} (s : State) (c : Candidate) (hr : r.failure = none) :
    (attempt catalog r s c).failure = c.fault? catalog s := by
  unfold attempt Candidate.fault?
  cases c.evaluate catalog s with
  | ok e => exact hr
  | error stop =>
    cases stop with
    | rejected note => exact hr
    | fault f => rfl

theorem failure_pass {r : Run} (ts : List (State × Candidate)) (hr : r.failure = none) :
    (pass catalog r ts).failure = ts.findSome? fun t => t.2.fault? catalog t.1 := by
  induction ts generalizing r with
  | nil => exact hr
  | cons t rest ih =>
    have hfailure : (attempt catalog r t.1 t.2).failure = t.2.fault? catalog t.1 :=
      failure_attempt t.1 t.2 hr
    rw [pass, List.findSome?_cons]
    cases h : t.2.fault? catalog t.1 with
    | some f => simp [hfailure, h]
    | none => simpa [hfailure, h] using ih (hfailure.trans h)

theorem pass_append {r : Run} (xs ys : List (State × Candidate)) (hr : r.failure = none) :
    pass catalog r (xs ++ ys) = if (pass catalog r xs).failure.isSome then pass catalog r xs
      else pass catalog (pass catalog r xs) ys := by
  induction xs generalizing r with
  | nil => simp [pass, hr]
  | cons t rest ih =>
    rw [List.cons_append, pass, pass]
    cases h : (attempt catalog r t.1 t.2).failure with
    | some f => simp [h]
    | none => simpa [h] using ih h

theorem hasRoom_zero (limit : Nat) : hasRoom limit 0 = true := by
  cases limit <;> simp [hasRoom]

/-- The loop over contexts and their candidates makes the attempts that it gets to, and no others. -/
theorem contexts_eq_pass {r : Run} (work : List (State × List Candidate)) (hr : r.failure = none) :
    contexts catalog limit r work = pass catalog r (attempts catalog limit work) := by
  induction work generalizing r with
  | nil => rfl
  | cons entry rest ih =>
    obtain ⟨s, cs⟩ := entry
    have hcontext : context catalog limit s 0 r cs =
        pass catalog r ((reached catalog limit s 0 cs).map (s, ·)) :=
      context_eq_pass s cs hr (hasRoom_zero limit)
    rw [contexts, attempts, List.flatMap_cons, pass_append _ _ hr, hcontext]
    dsimp only
    split
    next => rfl
    next hunfailed => exact ih (by simpa using hunfailed)

def upTo {α : Type} (limit : Nat) (xs : List α) : List α :=
  if limit = 0 then xs else xs.take limit

theorem filterMap_reached (s : State) (produced : Nat) (cs : List Candidate) :
    (reached catalog limit s produced cs).filterMap (·.accepted? catalog s) =
      if limit = 0 then cs.filterMap (·.accepted? catalog s)
      else (cs.filterMap (·.accepted? catalog s)).take (limit - produced) := by
  induction cs generalizing produced with
  | nil => simp [reached]
  | cons c rest ih =>
    cases hroom : hasRoom limit produced with
    | false =>
      have hfull : limit ≠ 0 ∧ limit ≤ produced := by simpa [hasRoom] using hroom
      rw [reached_of_not_hasRoom s _ hroom, if_neg hfull.1, Nat.sub_eq_zero_of_le hfull.2,
        List.take_zero, List.filterMap_nil]
    | true =>
      rw [reached_cons, if_pos hroom]
      cases h : c.accepted? catalog s with
      | none => simpa [h] using ih produced
      | some e =>
        have htail := ih (produced + 1)
        by_cases hzero : limit = 0
        · rw [if_pos hzero] at htail ⊢
          simp [h, htail]
        · have hlt : produced < limit := by simpa [hasRoom, hzero] using hroom
          have hsub : limit - produced = limit - (produced + 1) + 1 := by omega
          rw [if_neg hzero] at htail ⊢
          simp [h, htail, hsub]

def examplesOf (catalog : List String) (ts : List (State × Candidate)) : List Example :=
  ts.filterMap fun t => t.2.accepted? catalog t.1

/-- A run has collected the examples of some attempts and has counted every one of these under its
rule. -/
structure Collects (catalog : List String) (r : Run) (ts : List (State × Candidate)) (next : Run) :
    Prop where
  examples_eq : next.examples = r.examples ++ examplesOf catalog ts
  accepted_eq : ∀ rule, count next.accepted rule =
    count r.accepted rule + (examplesOf catalog ts).countP (·.rule == rule)
  tried_eq : ∀ rule, count next.accepted rule + count next.rejected rule =
    count r.accepted rule + count r.rejected rule + ts.countP (·.2.rule == rule)
  total_eq : next.accepted.total + next.rejected.total =
    r.accepted.total + r.rejected.total + ts.length

theorem Collects.refl (r : Run) : Collects catalog r [] r := by
  constructor <;> simp [examplesOf]

theorem Collects.trans {r next last : Run} {xs ys : List (State × Candidate)}
    (hxs : Collects catalog r xs next) (hys : Collects catalog next ys last) :
    Collects catalog r (xs ++ ys) last := by
  have happend : examplesOf catalog (xs ++ ys) = examplesOf catalog xs ++ examplesOf catalog ys :=
    List.filterMap_append
  constructor
  · rw [hys.examples_eq, hxs.examples_eq, happend, List.append_assoc]
  · intro rule
    rw [hys.accepted_eq, hxs.accepted_eq, happend, List.countP_append, Nat.add_assoc]
  · intro rule
    rw [hys.tried_eq, hxs.tried_eq, List.countP_append, Nat.add_assoc]
  · rw [hys.total_eq, hxs.total_eq, List.length_append, Nat.add_assoc]

theorem collects_attempt (r : Run) (s : State) (c : Candidate)
    (h : c.fault? catalog s = none) : Collects catalog r [(s, c)] (attempt catalog r s c) := by
  unfold attempt
  cases he : c.evaluate catalog s with
  | ok e =>
    have haccepted : c.accepted? catalog s = some e := by rw [Candidate.accepted?, he]; rfl
    have hrule := Candidate.rule_of_evaluate he
    constructor
    · simp [examplesOf, haccepted, accept]
    · simp [examplesOf, haccepted, accept, count_countUp, List.countP_cons]
    · simp [accept, count_countUp, hrule, List.countP_cons]
      omega
    · simp [accept, total_countUp]
      omega
  | error stop =>
    cases stop with
    | rejected note =>
      have haccepted : c.accepted? catalog s = none := by rw [Candidate.accepted?, he]; rfl
      constructor
      · simp [examplesOf, haccepted, reject]
      · simp [examplesOf, haccepted, reject]
      · simp [reject, count_countUp, List.countP_cons]
        omega
      · simp [reject, total_countUp]
        omega
    | fault f => simp [Candidate.fault?, he] at h

theorem collects_pass {r : Run} {ts : List (State × Candidate)} (hr : r.failure = none)
    (h : ∀ t ∈ ts, t.2.fault? catalog t.1 = none) : Collects catalog r ts (pass catalog r ts) := by
  induction ts generalizing r with
  | nil => exact .refl r
  | cons t rest ih =>
    have ht := h t List.mem_cons_self
    have hfailure : (attempt catalog r t.1 t.2).failure = none :=
      (failure_attempt t.1 t.2 hr).trans ht
    have hrest := ih hfailure fun u hu => h u (List.mem_cons_of_mem _ hu)
    rw [pass, hfailure, Option.isSome_none, if_neg Bool.false_ne_true]
    exact (collects_attempt r t.1 t.2 ht).trans hrest

theorem examplesOf_attempts (work : List (State × List Candidate)) :
    examplesOf catalog (attempts catalog limit work) =
      work.flatMap fun (s, cs) => upTo limit (cs.filterMap (·.accepted? catalog s)) := by
  unfold examplesOf attempts
  rw [List.filterMap_flatMap]
  congr 1
  funext entry
  rw [List.filterMap_map]
  exact filterMap_reached entry.1 0 entry.2

theorem exists_resume_eq (earlier : Run) (work : List (State × List Candidate)) :
    ∃ log, resume catalog limit earlier work =
      { pass catalog earlier.restart (attempts catalog limit work) with log := log } := by
  unfold resume
  rw [contexts_eq_pass work (show earlier.restart.failure = none from rfl)]
  dsimp only
  split
  next => exact ⟨_, rfl⟩
  next => exact ⟨_, rfl⟩

/-- A run ends in the first failure among the attempts that it gets to. Without one it gives, context
by context, the first `limit` examples of the candidates tried one by one, and the counts that it
started from grow by these examples and by these attempts. -/
theorem resume_collects (catalog : List String) (limit : Nat) (earlier : Run)
    (work : List (State × List Candidate)) :
    let run := resume catalog limit earlier work
    let tried := attempts catalog limit work
    run.failure = tried.findSome? (fun t => t.2.fault? catalog t.1) ∧
      ((∀ t ∈ tried, t.2.fault? catalog t.1 = none) →
        run.examples = work.flatMap (fun (s, cs) =>
          upTo limit (cs.filterMap (·.accepted? catalog s))) ∧
        (∀ rule, count run.accepted rule =
          count earlier.accepted rule + run.examples.countP (·.rule == rule)) ∧
        (∀ rule, count run.accepted rule + count run.rejected rule =
          count earlier.accepted rule + count earlier.rejected rule +
            tried.countP (·.2.rule == rule)) ∧
        run.accepted.total + run.rejected.total =
          earlier.accepted.total + earlier.rejected.total + tried.length) := by
  intro run tried
  obtain ⟨log, hrun⟩ : ∃ log, run =
      { pass catalog earlier.restart tried with log := log } := exists_resume_eq earlier work
  have hstart : earlier.restart.failure = none := rfl
  rw [hrun]
  refine ⟨failure_pass tried hstart, fun hnone => ?_⟩
  have hcollects := collects_pass hstart hnone
  have hexamples : (pass catalog earlier.restart tried).examples = examplesOf catalog tried :=
    hcollects.examples_eq.trans (List.nil_append _)
  refine ⟨hexamples.trans (examplesOf_attempts work), fun rule => ?_, hcollects.tried_eq,
    hcollects.total_eq⟩
  rw [hcollects.accepted_eq rule, hexamples]
  rfl

/-- What a context meets: a recommendation without a place, one with a place, and a rule that does
not exist. -/
def dinnerOffers : List Candidate :=
  let place : Row := [("id", .entity "thai-garden" "com.dine:restaurant" .null)]
  let book := Call.ofSignature reservation []
  [.fragment (.positiveRecommendation [] (some book) (some book)),
    .fragment (.positiveRecommendation place (some book) (some book)), .unknown "toast" (by decide)]

/-- With one example a context, the rule that does not exist is not reached. With two, it ends the
run. -/
theorem resume_collects_dinners :
    let work := [(dinner, dinnerOffers), (dinner, dinnerOffers)]
    let run := resume Fragment.ruleNames 1 start work
    (∀ t ∈ attempts Fragment.ruleNames 1 work, t.2.fault? Fragment.ruleNames t.1 = none) ∧
      run.failure = none ∧ run.examples.length = 2 ∧
      count run.accepted "positive_recommendation_reply_pair" = 2 ∧
      run.accepted.total + run.rejected.total = 4 ∧
      (resume Fragment.ruleNames 2 start work).failure = some (.unknownRule "toast") := by
  intro work run
  have htried : ∀ t ∈ attempts Fragment.ruleNames 1 work,
      t.2.fault? Fragment.ruleNames t.1 = none := by decide
  obtain ⟨hfailure, hrun⟩ := resume_collects Fragment.ruleNames 1 start work
  obtain ⟨hexamples, haccepted, _, htotal⟩ := hrun htried
  have hlength : run.examples.length = 2 := by
    rw [hexamples]
    rfl
  refine ⟨htried, ?_, hlength, ?_, ?_, ?_⟩
  · exact hfailure.trans rfl
  · rw [haccepted, hexamples]
    rfl
  · exact htotal.trans rfl
  · exact (resume_collects Fragment.ruleNames 2 start work).1.trans rfl

end Run

end Colloquy
