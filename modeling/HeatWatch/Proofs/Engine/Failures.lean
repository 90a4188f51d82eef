import HeatWatch.Proofs.Engine.RoundTrips
import HeatWatch.Proofs.Table.Refusals
import Mathlib.Tactic.ByContra

/-!
# What failures leave alone

The table changes when the host says so, or when something that was asked for could be read. A caller
that is told a failure has changed nothing, and neither has the task that handled its request in the
queue; a probe changes nothing unless it brings a listing. Main statements:

* `table_of_act`: how a task changes the table at all;
* `Mute.follow`: a task that serves no caller never tells one anything;
* `failures_spare_table`: what fails changes nothing, in every run from the start.
-/

namespace HeatWatch

namespace Engine

variable {e s : Engine} {id : TaskId} {d : Duty} {m : Move}

/-! ## Changes of the table -/

/-- A task changes the table with a body that it could read: that of a request for which no caller
waits, that of a probe, or that of the lookup whose caller it tells. -/
inductive Keeps (e : Engine) (id : TaskId) : Prop
  | delivered {run : Permit} {x : Entry} {body : String}
      (hready : e.ready? id = some (.conclude (.entry run x) (.ok body))) (hcaller : x.caller = none)
      (hread : x.request.refusal? body = none)
  | probed {outage : Permit} {next : Nat} {body : String} {ss : List System}
      (hready : e.ready? id = some (.conclude (.probe outage next) (.ok body)))
      (hread : Response.systems.decode body = .ok ss)
  | found {l : Lookup} {body : String} {f : Finding} {t : SystemTable}
      (hready : e.ready? id = some (.conclude (.lookup l) (.ok body)))
      (hread : l.read e.table body = .ok (f, t))

theorem table_of_act (h : (e.move (.act id)).table ≠ e.table) : e.Keeps id := by
  rw [move_table] at h
  cases hready : e.ready? id with
  | none =>
    refine absurd ?_ h
    show (e.ready? id).elim e.table _ = e.table
    rw [hready]
    rfl
  | some d =>
    rw [tabled_of_ready hready] at h
    cases d with
    | conclude p r =>
      cases r with
      | error f => cases p <;> exact absurd rfl h
      | ok body =>
        cases p with
        | entry run x =>
          cases hcaller : x.caller with
          | some caller =>
            refine absurd ?_ h
            show (if x.caller.isNone then _ else e.table) = e.table
            rw [hcaller]
            rfl
          | none =>
            cases hread : x.request.refusal? body with
            | none => exact .delivered hready hcaller hread
            | some f =>
              refine absurd ?_ h
              show (if x.caller.isNone then _ else e.table) = e.table
              rw [hcaller, Dispatch.deliver_of_refusal hread]
              rfl
        | probe outage next =>
          cases hread : Response.systems.decode body with
          | ok ss => exact .probed hready hread
          | error f =>
            refine absurd ?_ h
            show (Response.systems.decode body).toOption.elim _ _ = e.table
            rw [hread]
            rfl
        | lookup l =>
          cases hread : l.read e.table body with
          | ok result => exact .found hready hread
          | error f =>
            refine absurd ?_ h
            show (l.read e.table body).toOption.elim _ _ = e.table
            rw [hread]
            rfl
    | take | startPoll | poll | startProbe | probe | consult | route | submit | await | exchange =>
      exact absurd rfl h

/-! ## Who tells callers -/

/-- A task that was there before a move went on itself, or is where it was but for what others tell
it. -/
theorem move_duty_of_known (hr : e.roster.Orderly) (hlt : id < e.nextTask)
    (hd : (e.move m).duty? id = some d) :
    (∃ d₀, m = .act id ∧ e.ready? id = some d₀ ∧ d₀.next e = some d) ∨
      ∃ d₀, e.duty? id = some d₀ ∧ d₀.Passes d := by
  have hk : e.Known := known_of_orderly hr
  by_cases hm : m = .act id
  · subst hm
    cases hready : e.ready? id with
    | none =>
      rw [move_of_not_ready hready] at hd
      exact .inr ⟨d, hd, .refl d⟩
    | some d₀ =>
      rw [move_own hk hready] at hd
      exact .inl ⟨d₀, rfl, rfl, hd⟩
  · rcases move_duty hk hm hd with hpassed | ⟨hnone, -⟩
    · exact .inr hpassed
    · -- a task that ended stays away
      cases (gone_move hr hlt hnone m).symm.trans hd

/-- The task serves no caller, and has told none anything. -/
structure Mute (e : Engine) (id : TaskId) : Prop where
  known : id < e.nextTask
  unasked : ∀ {d}, e.duty? id = some d → d.lookup? = none
  untold : ∀ h ∈ e.happenings, h.finds id = false

/-- Whoever tells a caller something makes its lookup. -/
theorem lookup?_of_finds {h : Happening} (hmem : h ∈ e.records m) (hfinds : h.finds id = true) :
    ∃ d l, e.ready? id = some d ∧ d.lookup? = some l := by
  obtain ⟨id', d, rfl, hready, hnotes⟩ := notes_of_move hmem
  cases hnotes with
  | @cached l | @answered l =>
    obtain rfl : id' = id := eq_of_beq hfinds
    exact ⟨_, l, hready, rfl⟩
  | polled | joined | sent | received | exchanged | callback | outage | recovered => cases hfinds

theorem Mute.move (h : e.Mute id) (hr : e.roster.Orderly) (m : Move) : (e.move m).Mute id where
  known := Nat.lt_of_lt_of_le h.known (move_evolves hr m).later.nextTask
  unasked {d} hd := by
    rcases move_duty_of_known hr h.known hd with ⟨d₀, rfl, hready, hnext⟩ | ⟨d₀, hd₀, hpass⟩
    · refine Option.eq_none_iff_forall_ne_some.2 fun l hl => ?_
      cases (h.unasked (duty?_of_ready? hready)).symm.trans (lookup?_of_next hnext hl)
    · cases hpass with
      | refl => exact h.unasked hd₀
      | told => cases h.unasked hd₀
  untold := by
    intro x hx
    rw [move_happenings] at hx
    rcases List.mem_append.1 hx with hold | hnew
    · exact h.untold x hold
    · cases hfinds : x.finds id with
      | false => rfl
      | true =>
        obtain ⟨d, l, hready, hl⟩ := lookup?_of_finds hnew hfinds
        cases (h.unasked (duty?_of_ready? hready)).symm.trans hl

theorem Mute.follow (h : e.Mute id) (hr : e.roster.Orderly) (ms : List Move) :
    (e.follow ms).Mute id :=
  orderly_induction (P := (·.Mute id)) (fun _ m hr h => h.move hr m) h hr ms

/-- A task that acts without a lookup has told no caller anything. -/
theorem HeardOnce.mute (h : e.HeardOnce id) (hk : e.Known) (hd : e.duty? id = some d)
    (hl : d.lookup? = none) : e.Mute id where
  known := hk.lt hd
  unasked hd' := by
    cases hd.symm.trans hd'
    exact hl
  untold x hx := by
    rcases h with hnone | ⟨-, -, hgone⟩
    · exact Bool.eq_false_iff.2 (List.filter_eq_nil_iff.1 hnone x hx)
    · cases hgone.symm.trans hd

/-- What was recorded stays recorded. -/
theorem mem_happenings_follow {h : Happening} (hmem : h ∈ e.happenings) (ms : List Move) :
    h ∈ (e.follow ms).happenings := by
  refine follow_induction (P := fun e => h ∈ e.happenings) (fun e m hin => ?_) hmem ms
  rw [move_happenings]
  exact List.mem_append_left _ hin

/-- A caller is told one thing only. -/
theorem HeardOnce.unique (h : e.HeardOnce id) {r r' : Except RequestError Finding}
    (hr : .found id r ∈ e.happenings) (hr' : .found id r' ∈ e.happenings) : r = r' := by
  have hmem : ∀ {r}, .found id r ∈ e.happenings → .found id r ∈ e.happenings.filter (·.finds id) :=
    fun hin => List.mem_filter.2 ⟨hin, beq_self_eq_true id⟩
  rcases h with hnone | ⟨hone, -⟩
  · have hin := hmem hr
    rw [hnone] at hin
    cases hin
  · obtain ⟨x, hx⟩ := List.length_eq_one_iff.1 hone
    have hin := hmem hr
    have hin' := hmem hr'
    rw [hx] at hin hin'
    cases (List.mem_singleton.1 hin).trans (List.mem_singleton.1 hin').symm
    rfl

/-- A caller that is told a failure changed nothing in the table. -/
theorem table_of_failed (hr : e.roster.Orderly) (hheard : ∀ ms, (e.follow ms).HeardOnce id)
    {after : List Move} {f : RequestError}
    (hfound : .found id (.error f) ∈ (e.follow (.act id :: after)).happenings) :
    (e.move (.act id)).table = e.table := by
  by_contra hchanged
  have hmute : ∀ {d}, e.ready? id = some d → d.lookup? = none → False := by
    intro d hready hl
    have hmute := (hheard []).mute (known_of_orderly hr) (duty?_of_ready? hready) hl
    cases (hmute.follow hr _).untold _ hfound |>.symm.trans (beq_self_eq_true id)
  cases table_of_act hchanged with
  | delivered hready => exact hmute hready rfl
  | probed hready => exact hmute hready rfl
  | @found l body f' t hready hread =>
    -- the caller would be told what was read as well
    have hrecords : e.records (.act id) = [.found id (.ok f')] := by
      rw [records_of_ready hready]
      show [Happening.found id (((l.read e.table body).map (·.1)).mapError .parse)] = _
      rw [hread]
      rfl
    have htold : .found id (.ok f') ∈ (e.move (.act id)).happenings := by
      rw [move_happenings, hrecords]
      exact List.mem_append_right _ List.mem_cons_self
    cases (hheard _).unique hfound (mem_happenings_follow htold after)

/-! ## Failures -/

/-- What fails changes nothing in the table, in every run from a state. -/
structure SparesTable (s : Engine) : Prop where
  /-- A caller that is told a failure at some time changed nothing, whenever it did something. -/
  failed : ∀ {before after id f},
    .found id (.error f) ∈ (s.follow (before ++ .act id :: after)).happenings →
      ((s.follow before).move (.act id)).table = (s.follow before).table
  /-- Neither did whoever handled its request in the queue. -/
  handled : ∀ {ms id run x r}, (s.follow ms).ready? id = some (.conclude (.entry run x) r) →
    x.caller ≠ none → ((s.follow ms).move (.act id)).table = (s.follow ms).table
  /-- A request for which no caller waits changes something only if its body can be read. -/
  dropped : ∀ {ms id run x r}, (s.follow ms).ready? id = some (.conclude (.entry run x) r) →
    (∀ body, r = .ok body → x.request.refusal? body ≠ none) →
      ((s.follow ms).move (.act id)).table = (s.follow ms).table
  /-- A probe changes something only if it brings a listing. -/
  probed : ∀ {ms id outage next r},
    (s.follow ms).ready? id = some (.conclude (.probe outage next) r) →
      (∀ body ss, r = .ok body → Response.systems.decode body ≠ .ok ss) →
        ((s.follow ms).move (.act id)).table = (s.follow ms).table
  /-- No task changes what the host gave. -/
  hosted : ∀ ms id system, (((s.follow ms).move (.act id)).table.entry system).hosted =
    ((s.follow ms).table.entry system).hosted

/-- What cannot be read changes nothing: no body that is refused, whatever the table and the request,
and no lookup, request or probe that fails in a run from the start. What can be read changes nothing
that the host gave. -/
theorem failures_spare_table (settings : EngineSettings) (service : Service)
    (observer : Option Observer) (script : Script) :
    (∀ (t : SystemTable) (r : Request) (body : String),
      match r.refusal? body with
      | some f => Dispatch.decode t r body = .error f ∧ (Dispatch.deliver t r body).1 = t ∧
          ∀ l s u, .callback l s u ∉ (Dispatch.deliver t r body).2
      | none => ∃ u t', Dispatch.decode t r body = .ok (u, t') ∧
          (Dispatch.deliver t r body).1 = t' ∧
          ∀ id, (t'.entry id).hosted = (t.entry id).hosted) ∧
      (start settings service observer script).SparesTable := by
  have hr : ∀ ms, ((start settings service observer script).follow ms).roster.Orderly :=
    follow_orderly settings service observer script
  have hheard : ∀ ms id, ((start settings service observer script).follow ms).HeardOnce id :=
    fun ms id => HeardOnce.follow (.inl rfl) (start_orderly ..) ms
  refine ⟨Dispatch.decode_spares, ?_, ?_, ?_, ?_, ?_⟩
  · intro before after id f hfound
    rw [follow_append] at hfound
    refine table_of_failed (hr before) (fun ms => ?_) hfound
    rw [← follow_append]
    exact hheard _ id
  · intro ms id run x r hready hcaller
    by_contra hchanged
    cases table_of_act hchanged with
    | delivered hready' hnone =>
      cases hready.symm.trans hready'
      exact hcaller hnone
    | probed hready' | found hready' => cases hready.symm.trans hready'
  · intro ms id run x r hready hrefused
    by_contra hchanged
    cases table_of_act hchanged with
    | delivered hready' _ hread =>
      cases hready.symm.trans hready'
      exact hrefused _ rfl hread
    | probed hready' | found hready' => cases hready.symm.trans hready'
  · intro ms id outage next r hready hrefused
    by_contra hchanged
    cases table_of_act hchanged with
    | probed hready' hread =>
      cases hready.symm.trans hready'
      exact hrefused _ _ rfl hread
    | delivered hready' | found hready' => cases hready.symm.trans hready'
  · intro ms id system
    exact hosted_move (fun c heq => by cases heq) system

end Engine

end HeatWatch
