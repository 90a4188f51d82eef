import HeatWatch.Response
import Mathlib.Tactic.SplitIfs

/-!
# Where a value ends

A list or an object ends with a character of its own. Once the machine has read one, it has seen the
end: no text after it changes the reading, and no shorter text holds a list or an object. Every
response is one of the two, so a body that breaks off before its value ends is never taken for a
smaller value.

* `Scan.run_splits`: what the machine has read of such a value does not depend on what follows;
* `Scan.eq_of_prefix`: no strict beginning of it is such a value;
* `Shape.stops_of_bracketed`: so reading by a shape that wants one stops at its end;
* `responses_stop_at_value`: this holds of every response.
-/

namespace HeatWatch.Json

/-- The value is a list or an object, whose text ends with a bracket or a brace of its own. -/
def Value.Bracketed : Value → Prop
  | .list _ | .object _ => True
  | .null | .bool _ | .number _ | .string _ => False

namespace Scan

/-! ## One character -/

theorem taken_of_complete {v w : Value} {frames : List Frame} {taken : Bool}
    (h : complete v frames = .whole w taken) : taken = true := by
  unfold complete at h
  split at h <;> cases h
  rfl

theorem taken_of_stepAfterItem {frames : List Frame} {items : List Value} {c : Char} {w : Value}
    {taken : Bool} (h : stepAfterItem frames items c = .whole w taken) : taken = true := by
  unfold stepAfterItem at h
  split_ifs at h
  exact taken_of_complete h

theorem taken_of_stepAfterMember {frames : List Frame} {members : List Member} {c : Char} {w : Value}
    {taken : Bool} (h : stepAfterMember frames members c = .whole w taken) : taken = true := by
  unfold stepAfterMember at h
  split_ifs at h
  exact taken_of_complete h

/-- Only a value without brackets ends before the character that ends it. -/
theorem taken_of_stepAfterValue {v w : Value} {frames : List Frame} {c : Char} {taken : Bool}
    (h : stepAfterValue v frames c = .whole w taken) (hv : ¬ v.Bracketed) (hw : w.Bracketed) :
    taken = true := by
  cases frames with
  | nil =>
    cases h
    exact absurd hw hv
  | cons frame frames =>
    cases frame with
    | item before => exact taken_of_stepAfterItem h
    | member before name => exact taken_of_stepAfterMember h

theorem startValue_ne_whole {frames : List Frame} {c : Char} {w : Value} {taken : Bool} :
    startValue frames c ≠ .whole w taken := by
  intro h
  unfold startValue at h
  split_ifs at h
  split at h <;> cases h

theorem startName_ne_whole {frames : List Frame} {members : List Member} {c : Char} {w : Value}
    {taken : Bool} : startName frames members c ≠ .whole w taken := by
  intro h
  unfold startName at h
  split_ifs at h

/-- The last character of a list or an object belongs to it. -/
theorem taken_of_step {s : State} {c : Char} {w : Value} {taken : Bool}
    (h : s.step c = .whole w taken) (hw : w.Bracketed) : taken = true := by
  obtain ⟨frames, place⟩ := s
  cases place with
  | value =>
    simp only [State.step] at h
    split_ifs at h
    exact absurd h startValue_ne_whole
  | firstItem =>
    simp only [State.step] at h
    split_ifs at h
    · exact taken_of_complete h
    · exact absurd h startValue_ne_whole
  | afterItem items => exact taken_of_stepAfterItem h
  | nextItem items =>
    simp only [State.step] at h
    split_ifs at h
    exact absurd h startValue_ne_whole
  | firstName =>
    simp only [State.step] at h
    split_ifs at h
    · exact taken_of_complete h
    · exact absurd h startName_ne_whole
  | afterMember members => exact taken_of_stepAfterMember h
  | nextName members =>
    simp only [State.step] at h
    split_ifs at h
    exact absurd h startName_ne_whole
  | name members t =>
    simp only [State.step] at h
    split at h <;> cases h
  | colon members name =>
    simp only [State.step] at h
    split_ifs at h
  | word word left =>
    simp only [State.step] at h
    split at h
    · -- a literal name is no list and no object
      exact taken_of_stepAfterValue h (by cases word <;> exact id) hw
    · split_ifs at h
      exact taken_of_complete h
  | number n =>
    simp only [State.step] at h
    split at h
    · cases h
    · exact taken_of_stepAfterValue h id hw
    · cases h
  | string t =>
    simp only [State.step] at h
    split at h
    · cases h
    · exact taken_of_complete h
    · cases h

/-- A text that ends inside a list or an object is no value; one that ends after a number may be. -/
theorem not_bracketed_of_finish {s : State} {w : Value} {rest : List Char}
    (h : s.finish = .whole w rest) : ¬ w.Bracketed := by
  obtain ⟨frames, place⟩ := s
  cases place with
  | number n =>
    simp only [State.finish] at h
    split at h
    · cases h
    · split at h <;> cases h
      exact id
  | value | firstItem | afterItem | nextItem | firstName | afterMember | nextName | name | colon
    | word | string => cases h

/-! ## A whole text -/

/-- What the machine has read of a list or an object does not depend on the text after it. -/
theorem run_splits {s : State} {cs rest : List Char} {w : Value} (h : run s cs = .whole w rest)
    (hw : w.Bracketed) :
    ∃ taken, cs = taken ++ rest ∧ ∀ more, run s (taken ++ more) = .whole w more := by
  -- the machine takes one character after the other until the value closes
  induction cs generalizing s with
  | nil => exact absurd hw (not_bracketed_of_finish h)
  | cons c cs ih =>
    unfold run at h
    cases hstep : s.step c with
    | more s' =>
      rw [hstep] at h
      obtain ⟨taken, rfl, hrun⟩ := ih h
      refine ⟨c :: taken, rfl, fun more => ?_⟩
      rw [List.cons_append, run, hstep]
      exact hrun more
    | whole v taken =>
      rw [hstep] at h
      cases h
      obtain rfl := taken_of_step hstep hw
      refine ⟨[c], rfl, fun more => ?_⟩
      rw [List.singleton_append, run, hstep]
      rfl
    | broken f =>
      rw [hstep] at h
      cases h

/-- A list or an object that takes a whole text has no strict beginning that is one as well. -/
theorem eq_of_prefix {s : State} {taken shorter rest : List Char} {v w : Value}
    (h : run s taken = .whole w []) (hstart : shorter <+: taken)
    (hshort : run s shorter = .whole v rest) (hv : v.Bracketed) : shorter = taken := by
  obtain ⟨more, rfl⟩ := hstart
  obtain ⟨taken', rfl, hrun⟩ := run_splits hshort hv
  -- the shorter text already settles what the longer one says
  have hlong : run s (taken' ++ rest ++ more) = .whole v (rest ++ more) := by
    rw [List.append_assoc]
    exact hrun (rest ++ more)
  have hnone : rest ++ more = [] := by
    rw [h] at hlong
    exact (Reading.whole.inj hlong).2.symm
  rw [(List.append_eq_nil_iff.1 hnone).2, List.append_nil]

end Scan

/-! ## Reading by a shape -/

/-- Only lists and objects are read. -/
def Shape.Bracketed {α : Type} (s : Shape α) : Prop :=
  ∀ ⦃v : Value⦄ ⦃a : α⦄, s.read v = .ok a → v.Bracketed

theorem Shape.bracketed_list {α : Type} (s : Shape α) : (Shape.list s).Bracketed := by
  intro v a h
  unfold read at h
  cases v with
  | list | object => trivial
  | null | bool | number | string => cases h

theorem Shape.bracketed_record {γ α : Type} (name : String) (fields : Fields γ) (make : γ → α) :
    (Shape.record name fields make).Bracketed := by
  intro v a h
  unfold read at h
  cases v with
  | list | object => trivial
  | null | bool | number | string => cases h

/-- `p` is the shortest beginning of `b` that `f` accepts. -/
structure ShortestAccepted {ε α : Type} (f : String → Except ε α) (b p : String) : Prop where
  begins : p.toList <+: b.toList
  accepted : ∃ v, f p = .ok v
  shortest : ∀ q v, q.toList <+: b.toList → f q = .ok v → p.length ≤ q.length

/-- Of every text that `f` accepts, exactly one beginning is the shortest that it accepts: the text up
to the end of its first value. Whatever follows it, the result is the same, and every strict beginning
of it is an error. -/
def StopsAtValue {ε α : Type} (f : String → Except ε α) : Prop :=
  ∀ b v, f b = .ok v →
    ∃ p, (∀ p', ShortestAccepted f b p' ↔ p' = p) ∧
      (∃ w rest, Reading.ofText b.toList = .whole w rest ∧ b.toList = p.toList ++ rest) ∧
      (∀ more, f (p ++ more) = .ok v) ∧
      ∀ q, q.toList <+: p.toList → q ≠ p → ∃ e, f q = .error e

/-- The shortest beginning is known by what follows it and by what its own beginnings give. -/
theorem shortestAccepted_iff {ε α : Type} {f : String → Except ε α} {b p : String} {v : α}
    (hbegins : p.toList <+: b.toList) (hp : f p = .ok v)
    (hcut : ∀ q, q.toList <+: p.toList → q ≠ p → ∃ e, f q = .error e) (p' : String) :
    ShortestAccepted f b p' ↔ p' = p := by
  -- an accepted beginning is no strict beginning of `p`
  have hlong : ∀ q a, q.toList <+: b.toList → f q = .ok a → p.toList <+: q.toList := by
    intro q a hq ha
    rcases List.prefix_or_prefix_of_prefix hbegins hq with h | h
    · exact h
    · by_cases heq : q = p
      · exact heq ▸ List.prefix_rfl
      · obtain ⟨e, he⟩ := hcut q h heq
        rw [he] at ha
        cases ha
  constructor
  · intro h
    obtain ⟨a, ha⟩ := h.accepted
    have hstart := hlong p' a h.begins ha
    have hlength : p'.toList.length ≤ p.toList.length := by
      simpa only [String.length_toList] using h.shortest p v hbegins hp
    exact (String.toList_inj.1 (hstart.eq_of_length_le hlength)).symm
  · rintro rfl
    refine ⟨hbegins, ⟨v, hp⟩, fun q a hq ha => ?_⟩
    simpa only [String.length_toList] using (hlong q a hq ha).length_le

/-- Reading by a shape that wants a list or an object stops at the end of the value. -/
theorem Shape.stops_of_bracketed {α : Type} {s : Shape α} (hs : s.Bracketed) :
    StopsAtValue s.decode := by
  intro b v hb
  unfold decode at hb
  split at hb
  case h_2 => cases hb
  case h_1 w rest hread =>
    obtain ⟨taken, hb', hrun⟩ := Scan.run_splits hread (hs hb)
    have hmore : ∀ more, s.decode (String.ofList taken ++ more) = .ok v := by
      intro more
      rw [decode, Reading.ofText, String.toList_append, String.toList_ofList, hrun]
      exact hb
    -- an accepted beginning would hold a list or an object that ends earlier
    have hcut : ∀ q : String, q.toList <+: (String.ofList taken).toList → q ≠ String.ofList taken →
        ∃ e, s.decode q = .error e := by
      intro q hq hne
      cases hdecode : s.decode q with
      | error e => exact ⟨e, rfl⟩
      | ok a =>
        rw [decode] at hdecode
        split at hdecode
        case h_2 => cases hdecode
        case h_1 w' rest' hread' =>
          rw [String.toList_ofList] at hq
          have htaken : Scan.run Scan.start taken = .whole w [] := by
            simpa only [List.append_nil] using hrun []
          have heq := Scan.eq_of_prefix htaken hq hread' (hs hdecode)
          exact absurd (by rw [← heq, String.ofList_toList]) hne
    have hwhole : s.decode (String.ofList taken) = .ok v := by
      simpa only [String.append_empty] using hmore ""
    have hbegins : (String.ofList taken).toList <+: b.toList := by
      rw [String.toList_ofList]
      exact ⟨rest, hb'.symm⟩
    refine ⟨String.ofList taken, shortestAccepted_iff hbegins hwhole hcut, ⟨w, rest, hread, ?_⟩,
      hmore, hcut⟩
    rw [String.toList_ofList, hb']

end HeatWatch.Json

namespace HeatWatch

open Json (StopsAtValue Shape shortestAccepted_iff)

/-! ## Responses -/

/-- What is made of a value or of an error does not change where the reading stops. -/
theorem stops_of_map {ε ε' α β : Type} {f : String → Except ε α} {f' : String → Except ε' β}
    (g : α → β) (hf : StopsAtValue f) (hok : ∀ b v, f b = .ok v → f' b = .ok (g v))
    (herror : ∀ b e, f b = .error e → ∃ e', f' b = .error e') : StopsAtValue f' := by
  intro b w hb
  cases hv : f b with
  | error e =>
    obtain ⟨e', he'⟩ := herror b e hv
    rw [he'] at hb
    cases hb
  | ok v =>
    obtain rfl : g v = w := by
      rw [hok b v hv] at hb
      exact Except.ok.inj hb
    obtain ⟨p, -, ⟨u, rest, hread, hrest⟩, hmore, hcut⟩ := hf b v hv
    have hcut' : ∀ q : String, q.toList <+: p.toList → q ≠ p → ∃ e, f' q = .error e := by
      intro q hq hne
      obtain ⟨e, he⟩ := hcut q hq hne
      exact herror q e he
    have hwhole : f' p = .ok (g v) := by
      have := hok _ v (hmore "")
      rwa [String.append_empty] at this
    exact ⟨p, shortestAccepted_iff ⟨rest, hrest.symm⟩ hwhole hcut', ⟨u, rest, hread, hrest⟩,
      fun more => hok _ v (hmore more), hcut'⟩

theorem Response.stops_of_bracketed {α : Type} {r : Response α} (h : r.shape.Bracketed) :
    StopsAtValue r.decode :=
  stops_of_map id (Shape.stops_of_bracketed h)
    (fun b v hv => by rw [decode, decodeAt, hv]; rfl)
    (fun b e he => ⟨.ofFailure r.what e, by rw [decode, decodeAt, he]; rfl⟩)

/-- Responses are made of the values in them. -/
theorem stops_of_fmap {ε α β : Type} {f : String → Except ε α} (g : α → β) (hf : StopsAtValue f) :
    StopsAtValue fun b => g <$> f b :=
  stops_of_map g hf (fun b v hv => by rw [hv]; rfl) (fun b e he => ⟨e, by rw [he]; rfl⟩)

/-- A response that is cut off before its value ends is an error, and nothing after the value changes
what was read, whatever response it is. -/
theorem responses_stop_at_value :
    StopsAtValue Response.systems.decode ∧ StopsAtValue Response.system.decode ∧
      StopsAtValue Response.capabilities.decode ∧ StopsAtValue Response.categories.decode ∧
      StopsAtValue Response.status.decode ∧ StopsAtValue Response.software.decode ∧
      StopsAtValue decodeLatestAlarm ∧ StopsAtValue Response.parameters.decode ∧
      StopsAtValue decodeWrites ∧ StopsAtValue Response.mode.decode := by
  have hrecord : ∀ {α γ : Type} {r : Response α} {name : String} {fields : Json.Fields γ}
      {make : γ → α}, r.shape = .record name fields make → StopsAtValue r.decode :=
    fun h => Response.stops_of_bracketed (h ▸ Shape.bracketed_record _ _ _)
  have hlist : ∀ {α : Type} {r : Response (List α)} {s : Shape α}, r.shape = .list s →
      StopsAtValue r.decode :=
    fun h => Response.stops_of_bracketed (h ▸ Shape.bracketed_list _)
  exact ⟨hrecord rfl, hrecord rfl, hrecord rfl, hlist rfl, hlist rfl, hrecord rfl,
    stops_of_fmap _ (hrecord rfl), hlist rfl, stops_of_fmap _ (hlist rfl), hrecord rfl⟩

end HeatWatch
