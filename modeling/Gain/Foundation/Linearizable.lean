import Mathlib.Order.Nat
import Gain.Foundation.Chain
import Gain.Foundation.Run

/-! # Linearizability

The callers of an object see a history of calls and returns. The history is linearizable
if its calls can be put into one order in which a single caller would have got the same
replies, and in which a call that had returned before another one was made comes before
it. A call that has not returned may be part of that order or not.

The order is built up as a log. A call mostly takes effect at the end of the log. If it
only shows later that a call took effect, it is entered at an earlier moment, which must
not lie before the call was made.
-/

namespace Gain

open Function List Option

/-- What the callers of an object see. -/
inductive Event (ω ρ : Type) where
  | call (i : Nat) (op : ω)
  | ret (i : Nat) (reply : ρ)

def Event.caller {ω ρ : Type} : Event ω ρ → Nat
  | call i _ | ret i _ => i

/-- A call that has taken effect: where it stands in the history, and its reply. -/
structure Entry (ω ρ : Type) where
  id : Nat
  op : ω
  reply : ρ

variable {σ ω ρ : Type} {h : List (Event ω ρ)} {log before after : List (Entry ω ρ)} {x : Entry ω ρ}
  {a b c r i : Nat} {j : Nat}

/-! ## Histories -/

/-- The call at `c` returns at `r`, where its caller is seen again for the first time. -/
def Returns (h : List (Event ω ρ)) (c r : Nat) : Prop :=
  ∃ i op reply, h[c]? = some (.call i op) ∧ h[r]? = some (.ret i reply) ∧ c < r ∧
    ∀ k e, c < k → k < r → h[k]? = some e → e.caller ≠ i

/-- The call at `a` had returned when the call at `b` was made. -/
def Precedes (h : List (Event ω ρ)) (a b : Nat) : Prop := ∃ r, Returns h a r ∧ r < b

/-- What is seen next does not change when a call has returned. -/
theorem returns_concat (e : Event ω ρ) (inside : r < h.length) :
    Returns (h ++ [e]) c r ↔ Returns h c r := by
  have same : ∀ {k}, k ≤ r → (h ++ [e])[k]? = h[k]? := fun le =>
    List.getElem?_append_left (le.trans_lt inside)
  constructor
  · rintro ⟨i, op, reply, called, returned, later, between⟩
    rw [same later.le] at called
    rw [same le_rfl] at returned
    refine ⟨i, op, reply, called, returned, later, fun k e' after until' found => ?_⟩
    exact between k e' after until' ((same until'.le).trans found)
  · rintro ⟨i, op, reply, called, returned, later, between⟩
    refine ⟨i, op, reply, (same later.le).trans called, (same le_rfl).trans returned, later, ?_⟩
    intro k e' after until' found
    exact between k e' after until' ((same until'.le).symm.trans found)

theorem precedes_concat (e : Event ω ρ) (inside : b ≤ h.length) :
    Precedes (h ++ [e]) a b ↔ Precedes h a b := by
  constructor
  · rintro ⟨r, returned, early⟩
    exact ⟨r, (returns_concat e (early.trans_le inside)).mp returned, early⟩
  · rintro ⟨r, returned, early⟩
    exact ⟨r, (returns_concat e (early.trans_le inside)).mpr returned, early⟩

/-! ## Logs -/

/-- The replies in the log are those of the object to a single caller. -/
def Replays (apply : σ → ω → ρ × σ) : List (Entry ω ρ) → σ → σ → Prop
  | [], s, s' => s = s'
  | e :: log, s, s' => (apply s e.op).1 = e.reply ∧ Replays apply log (apply s e.op).2 s'

/-- The log has every call that has returned, with its reply, and some of the others. What had
returned when a call was made comes before it. -/
structure Arranges (h : List (Event ω ρ)) (log : List (Entry ω ρ)) : Prop where
  once : (log.map Entry.id).Nodup
  called : ∀ e ∈ log, ∃ i, h[e.id]? = some (.call i e.op)
  answered : ∀ r i reply, h[r]? = some (.ret i reply) →
    ∃ e ∈ log, e.reply = reply ∧ Returns h e.id r
  order : log.Pairwise fun a b => ¬ Precedes h b.id a.id

/-- The log explains the history by an object with one caller. -/
structure Linearizes (apply : σ → ω → ρ × σ) (init : σ) (h : List (Event ω ρ))
    (log : List (Entry ω ρ)) (final : σ) : Prop where
  replays : Replays apply log init final
  arranges : Arranges h log

section Replays

variable {apply : σ → ω → ρ × σ} {init s s' : σ}

theorem replays_append : Replays apply (before ++ after) init s' ↔
    ∃ s, Replays apply before init s ∧ Replays apply after s s' := by
  induction before generalizing init with
  | nil =>
    constructor
    · exact fun replays => ⟨init, rfl, replays⟩
    · rintro ⟨s, same, replays⟩
      cases same
      exact replays
  | cons e before ih =>
    constructor
    · rintro ⟨reply, rest⟩
      obtain ⟨s, first, last⟩ := ih.mp rest
      exact ⟨s, ⟨reply, first⟩, last⟩
    · rintro ⟨s, ⟨reply, first⟩, last⟩
      exact ⟨reply, ih.mpr ⟨s, first, last⟩⟩

theorem Replays.unique (one : Replays apply log init s) (two : Replays apply log init s') :
    s = s' := by
  induction log generalizing init with
  | nil => exact one.symm.trans two
  | cons e log ih => exact ih one.2 two.2

/-- The object is at one state at the end of the first part. -/
theorem Replays.rest (whole : Replays apply (before ++ after) init s')
    (first : Replays apply before init s) : Replays apply after s s' := by
  obtain ⟨t, first', last⟩ := replays_append.mp whole
  rw [first.unique first']
  exact last

end Replays

/-! ## Keeping a log -/

/-- A call that has not returned, with its reply once it has taken effect. -/
structure Pending (ω ρ : Type) where
  id : Nat
  op : ω
  reply : Option ρ

/-- The last that is seen of a caller is its call, which is in the log once it has its reply. -/
structure Follows (h : List (Event ω ρ)) (log : List (Entry ω ρ)) (i : Nat) (p : Pending ω ρ) :
    Prop where
  made : h[p.id]? = some (.call i p.op)
  last : ∀ {k e}, p.id < k → h[k]? = some e → e.caller ≠ i
  waiting : p.reply = none → ∀ e ∈ log, e.id ≠ p.id
  done : ∀ {reply}, p.reply = some reply → ⟨p.id, p.op, reply⟩ ∈ log

/-- The log of a history, with the call that each caller is in. -/
structure Journal (h : List (Event ω ρ)) (log : List (Entry ω ρ))
    (pending : Nat → Option (Pending ω ρ)) : Prop where
  arranges : Arranges h log
  follows : ∀ {i p}, pending i = some p → Follows h log i p

theorem journal_nil : Journal ([] : List (Event ω ρ)) [] fun _ => none where
  arranges := ⟨nodup_nil, nofun, nofun, List.Pairwise.nil⟩
  follows := nofun

/-- What was called stands in the history. -/
theorem Arranges.id_lt (arranges : Arranges h log) (inside : x ∈ log) : x.id < h.length := by
  obtain ⟨i, called⟩ := arranges.called x inside
  exact (List.getElem?_eq_some_iff.mp called).1

/-- What is seen next is a call, or the return of a call in the log. -/
theorem Arranges.concat (arranges : Arranges h log) {e : Event ω ρ}
    (new : ∀ i reply, e = .ret i reply →
      ∃ x ∈ log, x.reply = reply ∧ Returns (h ++ [e]) x.id h.length) : Arranges (h ++ [e]) log := by
  refine ⟨arranges.once, fun x inside => ?_, fun r i reply found => ?_, ?_⟩
  · obtain ⟨j, called⟩ := arranges.called x inside
    exact ⟨j, Chained.getElem?_concat called⟩
  · by_cases old : r < h.length
    · rw [List.getElem?_append_left old] at found
      obtain ⟨x, inside, same, returned⟩ := arranges.answered r i reply found
      exact ⟨x, inside, same, (returns_concat _ old).mpr returned⟩
    · have within := (List.getElem?_eq_some_iff.mp found).1
      rw [length_append, length_singleton] at within
      obtain rfl : r = h.length := by omega
      exact new i reply (Chained.eq_of_getElem?_concat old found).symm
  · refine arranges.order.imp_of_mem fun {a b} inside _ apart => ?_
    rw [precedes_concat e (arranges.id_lt inside).le]
    exact apart

namespace Follows

variable {p : Pending ω ρ}

variable (follows : Follows h log i p)
include follows

theorem id_lt : p.id < h.length :=
  (List.getElem?_eq_some_iff.mp follows.made).1

/-- A call that is pending has not returned. -/
theorem not_returns : ¬ Returns h p.id r := by
  rintro ⟨j, op, reply, called, returned, later, _⟩
  cases called.symm.trans follows.made
  exact follows.last later returned rfl

theorem not_precedes : ¬ Precedes h p.id b :=
  fun ⟨_, returned, _⟩ => follows.not_returns returned

/-- Someone else is seen next. -/
theorem concat {e : Event ω ρ} (other : i ≠ e.caller) : Follows (h ++ [e]) log i p where
  made := Chained.getElem?_concat follows.made
  last := by
    intro k e' later found
    by_cases old : k < h.length
    · rw [List.getElem?_append_left old] at found
      exact follows.last later found
    · rw [Chained.eq_of_getElem?_concat old found]
      exact other.symm
  waiting := follows.waiting
  done := follows.done

omit follows

/-- Two callers have not made the same call. -/
theorem id_ne {q : Pending ω ρ} (one : Follows h log i p) (two : Follows h log j q)
    (other : j ≠ i) :
    p.id ≠ q.id := by
  intro same
  have made := one.made
  rw [same, two.made] at made
  exact other (Event.call.inj (Option.some.inj made)).1

end Follows

namespace Journal

variable {pending : Nat → Option (Pending ω ρ)} {p : Pending ω ρ}

/-- A caller is where it was put, or where it has been. -/
theorem updated {new : Option (Pending ω ρ)} (found : update pending i new j = some p) :
    j = i ∧ new = some p ∨ j ≠ i ∧ pending j = some p := by
  by_cases own : j = i
  · subst own
    rw [update_self] at found
    exact .inl ⟨rfl, found⟩
  · rw [update_of_ne own] at found
    exact .inr ⟨own, found⟩

/-- A call is made. -/
theorem call (journal : Journal h log pending) (i : Nat) (op : ω) :
    Journal (h ++ [.call i op]) log (update pending i (some ⟨h.length, op, none⟩)) := by
  have arranges := journal.arranges
  refine ⟨arranges.concat fun _ _ same => (by cases same), fun found => ?_⟩
  obtain ⟨rfl, same⟩ | ⟨other, found⟩ := updated found
  · cases same
    refine ⟨List.getElem?_concat_length, fun {k e} later at' => ?_,
      fun _ e inside => (arranges.id_lt inside).ne, fun done => (by cases done)⟩
    have within := (List.getElem?_eq_some_iff.mp at').1
    have later : h.length < k := later
    rw [length_append, length_singleton] at within
    omega
  · exact (journal.follows found).concat other

/-- A call takes effect at a moment of the log that lies after it was made. -/
theorem enter {op : ω} (journal : Journal h (before ++ after) pending)
    (here : pending i = some ⟨c, op, none⟩) (late : ∀ e ∈ after, ¬ Precedes h e.id c)
    (reply : ρ) : Journal h (before ++ ⟨c, op, reply⟩ :: after)
      (update pending i (some ⟨c, op, some reply⟩)) := by
  have arranges := journal.arranges
  have mine := journal.follows here
  have mem : ∀ {e : Entry ω ρ}, e ∈ before ++ ⟨c, op, reply⟩ :: after ↔
      e = ⟨c, op, reply⟩ ∨ e ∈ before ++ after := by
    intro e
    rw [mem_append, mem_cons, mem_append, or_left_comm]
  refine ⟨⟨?_, fun e inside => ?_, fun r j answer found => ?_, ?_⟩, fun found => ?_⟩
  · rw [map_append, map_cons, nodup_middle, ← map_append, nodup_cons]
    refine ⟨fun inside => ?_, arranges.once⟩
    obtain ⟨e, member, same⟩ := mem_map.mp inside
    exact mine.waiting rfl e member same
  · obtain rfl | old := mem.mp inside
    · exact ⟨i, mine.made⟩
    · exact arranges.called e old
  · obtain ⟨e, inside, same, returned⟩ := arranges.answered r j answer found
    exact ⟨e, mem.mpr (.inr inside), same, returned⟩
  · obtain ⟨first, last, across⟩ := pairwise_append.mp arranges.order
    refine pairwise_append.mpr ⟨first, pairwise_cons.mpr ⟨late, last⟩, ?_⟩
    intro a inside b member
    obtain rfl | old := mem_cons.mp member
    · exact mine.not_precedes
    · exact across a inside b old
  · obtain ⟨rfl, same⟩ | ⟨other, there⟩ := updated found
    · cases same
      refine ⟨mine.made, mine.last, fun wait => (by cases wait), fun done => ?_⟩
      cases done
      exact mem.mpr (.inl rfl)
    · have theirs := journal.follows there
      refine ⟨theirs.made, theirs.last, fun wait e inside => ?_,
        fun done => mem.mpr (.inr (theirs.done done))⟩
      obtain rfl | old := mem.mp inside
      · exact mine.id_ne theirs other
      · exact theirs.waiting wait e old

/-- A call that has taken effect returns. -/
theorem ret {op : ω} {reply : ρ} (journal : Journal h log pending)
    (here : pending i = some ⟨c, op, some reply⟩) :
    Journal (h ++ [.ret i reply]) log (update pending i none) := by
  have mine := journal.follows here
  refine ⟨journal.arranges.concat fun j answer same => ?_, fun found => ?_⟩
  · cases same
    refine ⟨_, mine.done rfl, rfl, i, op, reply, Chained.getElem?_concat mine.made,
      List.getElem?_concat_length, mine.id_lt, fun k e later until' at' => ?_⟩
    rw [List.getElem?_append_left until'] at at'
    exact mine.last later at'
  · obtain ⟨_, same⟩ | ⟨other, found⟩ := updated found
    · cases same
    · exact (journal.follows found).concat other

end Journal

/-! ## Moments that have passed -/

section Record

variable {apply : σ → ω → ρ × σ} {init s s' t : σ} {kind : σ → Prop}

variable (apply init kind) in
/-- At a moment since the call at `c` was made the object was in a state of this kind. -/
def Met (h : List (Event ω ρ)) (log : List (Entry ω ρ)) (c : Nat) : Prop :=
  ∃ before after s, log = before ++ after ∧ Replays apply before init s ∧ kind s ∧
    ∀ e ∈ after, ¬ Precedes h e.id c

theorem Met.now (replays : Replays apply log init s) (here : kind s) (c : Nat) :
    Met apply init kind h log c :=
  ⟨log, [], s, (append_nil log).symm, replays, here, fun _ inside => absurd inside
    not_mem_nil⟩

theorem Met.seen (met : Met apply init kind h log c) (e : Event ω ρ) (inside : c < h.length) :
    Met apply init kind (h ++ [e]) log c := by
  obtain ⟨before, after, s, rfl, replays, here, late⟩ := met
  refine ⟨before, after, s, rfl, replays, here, fun e' member => ?_⟩
  rw [precedes_concat e inside.le]
  exact late e' member

theorem Met.concat (met : Met apply init kind h log c) (new : ¬ Precedes h x.id c) :
    Met apply init kind h (log ++ [x]) c := by
  obtain ⟨before, after, s, rfl, replays, here, late⟩ := met
  refine ⟨before, after ++ [x], s, append_assoc .., replays, here, fun e member => ?_⟩
  obtain old | same := mem_append.mp member
  · exact late e old
  · rw [mem_singleton.mp same]
    exact new

/-- The log with the states of the object, where each caller is at a place that says what it has
called, and a caller with a mark has met a state of a certain kind since. The one whose step is
looked at may be left out. -/
structure Record (apply : σ → ω → ρ × σ) (init : σ) (kind : σ → Prop)
    (place : Nat → Option (Pending ω ρ) → Prop) (marked : Nat → Prop) (busy : Option Nat)
    (h : List (Event ω ρ)) (log : List (Entry ω ρ)) (pending : Nat → Option (Pending ω ρ))
    (s : σ) : Prop where
  journal : Journal h log pending
  replays : Replays apply log init s
  places : ∀ {j}, busy ≠ some j → place j (pending j)
  met : ∀ {j p}, busy ≠ some j → marked j → pending j = some p → Met apply init kind h log p.id

namespace Record

variable {place place' : Nat → Option (Pending ω ρ) → Prop} {marked marked' : Nat → Prop}
  {pending : Nat → Option (Pending ω ρ)} {op : ω} {reply : ρ}

theorem nil (outside : ∀ j, place j none) :
    Record apply init kind place marked none [] [] (fun _ => none) init where
  journal := journal_nil
  replays := rfl
  places := fun {j} _ => outside j
  met := nofun

theorem here (record : Record apply init kind place marked none h log pending s) (j : Nat) :
    place j (pending j) :=
  record.places nofun

theorem meets (record : Record apply init kind place marked none h log pending s) {p : Pending ω ρ}
    (mark : marked i) (found : pending i = some p) : Met apply init kind h log p.id :=
  record.met nofun mark found

/-- A caller makes a step, and the others stay where they are. -/
theorem start (record : Record apply init kind place marked none h log pending s)
    (others : ∀ {j call}, j ≠ i → place j call → place' j call)
    (marks : ∀ {j}, j ≠ i → marked' j → marked j) :
    Record apply init kind place' marked' (some i) h log pending s where
  journal := record.journal
  replays := record.replays
  places := fun other => others (fun same => other (congrArg some same.symm)) (record.here _)
  met := fun other mark => record.meets (marks (fun same => other (congrArg some same.symm)) mark)

/-- The step ends. -/
theorem finish {call : Option (Pending ω ρ)}
    (record : Record apply init kind place marked (some i) h log pending s)
    (mine : pending i = call) (here : place i call)
    (mark : marked i → ∀ p, call = some p → Met apply init kind h log p.id) :
    Record apply init kind place marked none h log pending s where
  journal := record.journal
  replays := record.replays
  places := by
    intro j _
    by_cases own : j = i
    · rw [own, mine]
      exact here
    · exact record.places fun same => own (Option.some.inj same).symm
  met := by
    intro j p _ marks found
    by_cases own : j = i
    · subst own
      exact mark marks p (mine.symm.trans found)
    · exact record.met (fun same => own (Option.some.inj same).symm) marks found

/-- Who does not make the step has called what it had called. -/
theorem other {new : Option (Pending ω ρ)} (other : some i ≠ some j) :
    update pending i new j = pending j :=
  update_of_ne (fun same => other (congrArg some same.symm)) ..

variable (record : Record apply init kind place marked (some i) h log pending s)
include record

/-- Its caller sees what comes next. -/
theorem seen {e : Event ω ρ}
    {new : Option (Pending ω ρ)} (journal : Journal (h ++ [e]) log (update pending i new)) :
    Record apply init kind place marked (some i) (h ++ [e]) log (update pending i new) s where
  journal
  replays := record.replays
  places := fun away => (other away).symm ▸ record.places away
  met := by
    intro j p away mark found
    rw [other away] at found
    exact (record.met away mark found).seen _ (record.journal.follows found).id_lt

theorem call (op : ω) :
    Record apply init kind place marked (some i) (h ++ [.call i op]) log
      (update pending i (some ⟨h.length, op, none⟩)) s :=
  record.seen (record.journal.call i op)

theorem ret (here : pending i = some ⟨c, op, some reply⟩) :
    Record apply init kind place marked (some i) (h ++ [.ret i reply]) log
      (update pending i none) s :=
  record.seen (record.journal.ret here)

/-- The call takes effect now. -/
theorem enter (here : pending i = some ⟨c, op, none⟩) (effect : apply s op = (reply, s')) :
    Record apply init kind place marked (some i) h (log ++ [⟨c, op, reply⟩])
      (update pending i (some ⟨c, op, some reply⟩)) s' where
  journal := by
    have journal := record.journal
    rw [← append_nil log] at journal
    exact journal.enter here (fun e inside => absurd inside not_mem_nil) reply
  replays := by
    refine replays_append.mpr ⟨s, record.replays, ?_⟩
    simp only [Replays, effect, and_self]
  places := fun away => (other away).symm ▸ record.places away
  met := by
    intro j p away mark found
    rw [other away] at found
    exact (record.met away mark found).concat (record.journal.follows here).not_precedes

omit record

/-- The call took effect at an earlier moment. What came after it is moved along. -/
theorem insert (record : Record apply init kind place marked (some i) h (before ++ after) pending s)
    (here : pending i = some ⟨c, op, none⟩) (late : ∀ e ∈ after, ¬ Precedes h e.id c)
    (moment : Replays apply before init t) (shift : σ → σ) (effect : apply t op = (reply, shift t))
    (moves : ∀ mid rest u, after = mid ++ rest → Replays apply mid t u → Replays apply rest u s →
      Replays apply mid (shift t) (shift u)) (keeps : ∀ u, kind u → kind (shift u)) :
    Record apply init kind place marked (some i) h (before ++ ⟨c, op, reply⟩ :: after)
      (update pending i (some ⟨c, op, some reply⟩)) (shift s) where
  journal := record.journal.enter here late reply
  replays := by
    have rest := moves after [] s (append_nil after).symm (record.replays.rest moment) rfl
    refine replays_append.mpr ⟨t, moment, ?_⟩
    simp only [Replays, effect, true_and]
    exact rest
  places := fun away => (other away).symm ▸ record.places away
  met := by
    intro j p away mark found
    rw [other away] at found
    obtain ⟨early, later, u, split, reached, holds, apart⟩ := record.met away mark found
    obtain ⟨mid, rfl, rfl⟩ | ⟨mid, rfl, rfl⟩ := append_eq_append_iff.mp split
    · have last := (record.replays.rest moment).rest (reached.rest moment)
      have moved := moves mid later u rfl (reached.rest moment) last
      refine ⟨before ++ ⟨c, op, reply⟩ :: mid, later, shift u, by simp, ?_, keeps u holds, apart⟩
      refine replays_append.mpr ⟨t, moment, ?_⟩
      simp only [Replays, effect, true_and]
      exact moved
    · refine ⟨early, mid ++ ⟨c, op, reply⟩ :: after, u, by simp, reached, holds, ?_⟩
      intro e member
      obtain old | old := mem_append.mp member
      · exact apart e (mem_append_left after old)
      · obtain rfl | old := mem_cons.mp old
        · exact (record.journal.follows here).not_precedes
        · exact apart e (mem_append_right mid old)

end Record

end Record

/-! ## Runs -/

section Runs

variable {S L : Type} (step : S → L → Option S) (see : S → L → S → List (Event ω ρ))

/-- What the callers see in a run. -/
def observed : List L → S → List (Event ω ρ)
  | [], _ => []
  | l :: ls, s => ((step s l).map fun s' => see s l s' ++ observed ls s').getD []

variable {step see}

/-- What every step keeps true of the state and of what was seen so far is true in the end. -/
theorem observed_invariant {condition : S → L → Prop} {invariant : List (Event ω ρ) → S → Prop}
    (preserved : ∀ h s l s', condition s l → step s l = some s' → invariant h s →
      invariant (h ++ see s l s') s')
    {ls : List L} {s s' : S} (ran : run step ls s = some s') (along : Along step condition ls s)
    (initial : invariant h s) : invariant (h ++ observed step see ls s) s' := by
  induction ls generalizing h s with
  | nil =>
    cases ran
    rw [observed, append_nil]
    exact initial
  | cons l ls ih =>
    obtain ⟨s₁, first, rest⟩ := bind_eq_some_iff.mp ran
    have next := preserved h s l s₁ along.1 first initial
    rw [observed, first, map_some, getD_some, ← append_assoc]
    exact ih rest (along.2 s₁ first) next

end Runs

end Gain
