import HeatWatch.Proofs.Engine.Sources
import Mathlib.Data.List.Induction

/-!
# Lookups that are fetched once

What a caller found is kept, and answers the lookups to come. There is one way to lose it: a caller
looks into the table, finds no categories and asks for them without their parameters; another one has
them kept with their parameters; then the first one reads its response, which takes their place. Main
statements:

* `looked_follow`: whoever asks the service has looked into the table before, and found nothing;
* `detailed_iff`: categories with parameters are kept unless they are replaced like this;
* `FromTable.move`: a caller that finds its answer in the table asks the service nothing;
* `fetched_once`: when later callers are served from the table, in every run from the start.
-/

namespace HeatWatch

/-- A caller and what it is told that it found. -/
def Happening.finding? : Happening → Option (TaskId × Finding)
  | .found caller (.ok f) => some (caller, f)
  | _ => none

theorem Happening.finding?_eq_some {h : Happening} {caller : TaskId} {f : Finding} :
    h.finding? = some (caller, f) ↔ h = .found caller (.ok f) := by
  cases h with
  | found caller' res =>
    cases res with
    | ok f' => exact ⟨fun heq => by cases heq; rfl, fun heq => by cases heq; rfl⟩
    | error => exact ⟨nofun, nofun⟩
  | log | polled | joined | sent | received | exchanged | callback | outage | recovered =>
    exact ⟨nofun, nofun⟩

namespace Engine

variable {e s : Engine} {id : TaskId} {d : Duty} {m : Move} {ms ms' : List Move} {l l' : Lookup}
  {f : Finding} {system : SystemId}

/-! ## Looking into the table -/

/-- Whoever is past the table has looked for its answer there, and did not find it. -/
theorem looked_follow (hr : s.roster.Orderly) (hnone : ∀ id d, s.duty? id = some d → d.lookup? = none)
    (ms : List Move) (hd : (s.follow ms).duty? id = some d) (hl : d.lookup? = some l)
    (hpast : d ≠ .consult l) : ∃ before after, ms = before ++ .act id :: after ∧
      (s.follow before).ready? id = some (.consult l) ∧ l.cached? (s.follow before).table = none := by
  induction ms using List.reverseRecOn generalizing d with
  | nil => cases (hnone id d hd).symm.trans hl
  | append_singleton ms m ih =>
    have hk : (s.follow ms).Known := known_of_orderly ((follow_evolves hr ms).orderly hr)
    have hearlier : ∀ {d₀}, (s.follow ms).duty? id = some d₀ → d₀.lookup? = some l →
        d₀ ≠ .consult l → ∃ before after, ms ++ [m] = before ++ .act id :: after ∧
          (s.follow before).ready? id = some (.consult l) ∧
          l.cached? (s.follow before).table = none := by
      intro d₀ hd₀ hl₀ hpast₀
      obtain ⟨before, after, rfl, hlooked⟩ := ih hd₀ hl₀ hpast₀
      exact ⟨before, after ++ [m], by rw [List.append_assoc, List.cons_append], hlooked⟩
    rw [follow_append] at hd
    rcases move_duty_cases hk hd with ⟨d₀, rfl, hready, hnext⟩ | ⟨d₀, hd₀, hpass⟩ | hbegins
    · have hl₀ := lookup?_of_next hnext hl
      by_cases hconsult : d₀ = .consult l
      · subst hconsult
        refine ⟨ms, [], rfl, hready, Option.eq_none_iff_forall_ne_some.2 fun f hf => ?_⟩
        -- it would have ended with the answer
        have hended : (Duty.consult l).next (s.follow ms) = none := if_pos (by rw [hf]; rfl)
        cases hended.symm.trans hnext
      · exact hearlier (duty?_of_ready? hready) hl₀ hconsult
    · cases hpass with
      | refl => exact hearlier hd₀ hl hpast
      | told => exact hearlier hd₀ hl nofun
    · rcases hbegins.cases with ⟨l', -, rfl⟩ | ⟨run, rfl⟩ | ⟨permit, p, delay, period, rfl⟩ |
        ⟨outage, rfl⟩
      · cases hl
        exact absurd rfl hpast
      all_goals cases hl

/-! ## Categories that are replaced -/

/-- No caller has categories of the system kept with their parameters by any of the moves. -/
def Bare (e : Engine) (system : SystemId) : List Move → Prop
  | [] => True
  | m :: ms => ¬ e.Stores m system true ∧ (e.move m).Bare system ms

theorem bare_concat : e.Bare system (ms ++ [m]) ↔
    e.Bare system ms ∧ ¬ (e.follow ms).Stores m system true := by
  induction ms generalizing e with
  | nil => exact and_comm
  | cons m' ms ih =>
    show (_ ∧ (e.move m').Bare system (ms ++ [m])) ↔ (_ ∧ (e.move m').Bare system ms) ∧ _
    rw [ih, and_assoc]
    rfl

/-- Categories with parameters were replaced: a caller looked for some without them while none were
kept, and had them kept when those with parameters were there. None with parameters came in since. -/
def Replaced (s : Engine) (system : SystemId) (ms : List Move) : Prop :=
  ∃ first id second third, ms = first ++ .act id :: second ++ .act id :: third ∧
    (s.follow first).ready? id = some (.consult (.categories system false)) ∧
    (s.follow first).table.detail? system = none ∧
    let e := s.follow (first ++ .act id :: second)
    e.table.detail? system = some true ∧ e.Stores (.act id) system false ∧
      (e.move (.act id)).Bare system third

theorem Replaced.concat (h : s.Replaced system ms) (hm : ¬ (s.follow ms).Stores m system true) :
    s.Replaced system (ms ++ [m]) := by
  obtain ⟨first, id, second, third, rfl, hlooked, hnone, hdetail, hstores, hbare⟩ := h
  refine ⟨first, id, second, third ++ [m], by simp, hlooked, hnone, hdetail, hstores, ?_⟩
  rw [follow_append] at hm
  exact bare_concat.2 ⟨hbare, hm⟩

theorem detail?_move (h : e.Accounted) (m : Move) (system : SystemId) :
    (e.move m).table.detail? system = e.table.detail? system ∨
      ∃ withParameters, e.Stores m system withParameters :=
  (listing?_move h m system).imp_left (congrArg _)

/-- Categories of a system are kept from the first ones on. -/
theorem detail?_follow (h : e.Accounted) (hsome : e.table.detail? system ≠ none) (ms : List Move) :
    (e.follow ms).table.detail? system ≠ none := by
  refine accounted_induction (P := fun e => e.table.detail? system ≠ none) (fun e m h hsome => ?_)
    hsome h ms
  rcases detail?_move h m system with hsame | ⟨withParameters, hstores⟩
  · exact hsame ▸ hsome
  · exact Option.ne_none_iff_exists.2 ⟨_, (detail?_of_stores hstores).symm⟩

theorem Bare.detail? (hb : e.Bare system ms) (h : e.Accounted)
    (hd : e.table.detail? system = some false) : (e.follow ms).table.detail? system = some false := by
  induction ms generalizing e with
  | nil => exact hd
  | cons m ms ih =>
    refine ih hb.2 (h.move m) ?_
    rcases detail?_move h m system with hsame | ⟨withParameters, hstores⟩
    · exact hsame.trans hd
    · cases withParameters with
      | false => exact detail?_of_stores hstores
      | true => exact absurd hstores hb.1

/-- What is replaced is not there any more. -/
theorem Replaced.detail? (h : s.Replaced system ms) (hs : s.Accounted) :
    (s.follow ms).table.detail? system = some false := by
  obtain ⟨first, id, second, third, rfl, -, -, -, hstores, hbare⟩ := h
  rw [follow_append]
  exact hbare.detail? ((hs.follow _).move _) (detail?_of_stores hstores)

theorem detailed_or_bare (hs : s.Accounted) (hbefore : (s.follow ms).table.detail? system = some true)
    (ms' : List Move) : (s.follow (ms ++ ms')).table.detail? system = some true ∨
      (s.follow (ms ++ ms')).table.detail? system = some false := by
  have hsome : (s.follow ms).table.detail? system ≠ none := by
    rw [hbefore]
    exact nofun
  obtain ⟨detailed, hdetail⟩ :=
    Option.ne_none_iff_exists'.1 (detail?_follow (hs.follow ms) hsome ms')
  rw [follow_append]
  cases detailed with
  | false => exact .inr hdetail
  | true => exact .inl hdetail

/-- Categories with parameters are only lost if they are replaced. -/
theorem replaced_of_lost (hs : s.Accounted) (hnone : ∀ id d, s.duty? id = some d → d.lookup? = none)
    (hbefore : (s.follow ms).table.detail? system = some true)
    (hlost : (s.follow (ms ++ ms')).table.detail? system = some false) :
    s.Replaced system (ms ++ ms') := by
  -- the move that took them away is the last one, or one of those before
  induction ms' using List.reverseRecOn with
  | nil =>
    rw [List.append_nil] at hlost
    cases hbefore.symm.trans hlost
  | append_singleton ms' m ih =>
    rw [← List.append_assoc] at hlost ⊢
    have ha : (s.follow (ms ++ ms')).Accounted := hs.follow _
    have hlost' : ((s.follow (ms ++ ms')).move m).table.detail? system = some false := by
      rw [follow_append] at hlost
      exact hlost
    rcases detailed_or_bare hs hbefore ms' with hdetail | hbare
    · rcases detail?_move ha m system with hsame | ⟨withParameters, hstores⟩
      · cases hlost'.symm.trans (hsame.trans hdetail)
      · cases hlost'.symm.trans (detail?_of_stores hstores)
        have hcaller := hstores
        obtain ⟨id, body, cs, rfl, hready, -⟩ := hcaller
        -- its caller is past the table, so there were no categories when it looked
        obtain ⟨first, second, heq, hlooked, hmissing⟩ :=
          looked_follow hs.orderly hnone (ms ++ ms') (duty?_of_ready? hready) rfl nofun
        rw [heq] at hdetail hstores ⊢
        exact ⟨first, id, second, [], rfl, hlooked, Lookup.detail?_of_missing hmissing, hdetail,
          hstores, trivial⟩
    · refine (ih hbare).concat fun hstores => ?_
      cases (detail?_of_stores hstores).symm.trans hlost'

/-- Categories with parameters are kept unless they are replaced. -/
theorem detailed_iff (hs : s.Accounted) (hnone : ∀ id d, s.duty? id = some d → d.lookup? = none)
    (hbefore : (s.follow ms).table.detail? system = some true) :
    (s.follow (ms ++ ms')).table.detail? system = some true ↔ ¬ s.Replaced system (ms ++ ms') := by
  constructor
  · intro hdetail hreplaced
    cases hdetail.symm.trans (hreplaced.detail? hs)
  · intro hnot
    rcases detailed_or_bare hs hbefore ms' with hdetail | hbare
    · exact hdetail
    · exact absurd (replaced_of_lost hs hnone hbefore hbare) hnot

/-! ## Answers from the table -/

/-- The caller was answered from the table, or it is about to look there. Nothing was put into the
queue for it, and nothing was exchanged. -/
structure FromTable (e : Engine) (id : TaskId) (l : Lookup) : Prop where
  told : e.ready? id = some (.consult l) ∨
    (e.duty? id = none ∧ ∃ f, .found id (.ok f) ∈ e.happenings)
  unqueued : ∀ {x}, e.Holds x → x.caller ≠ some id
  unsent : ∀ h ∈ e.happenings, h.caller? ≠ some id

theorem FromTable.at_consult (h : e.FromTable id l) (hready : e.ready? id = some d) :
    d = .consult l := by
  rcases h.told with hconsult | ⟨hnone, -⟩
  · exact Option.some.inj (hready.symm.trans hconsult)
  · cases hnone.symm.trans (duty?_of_ready? hready)

/-- A caller that finds its answer when it looks is answered from the table. -/
theorem FromTable.move (h : e.FromTable id l) (ha : e.Accounted) (hl : e.LooksUp id l)
    (hfinds : m = .act id → e.ready? id = some (.consult l) → (l.cached? e.table).isSome = true) :
    (e.move m).FromTable id l where
  told := by
    rcases h.told with hready | ⟨hnone, f, hfound⟩
    · by_cases hm : m = .act id
      · subst hm
        obtain ⟨f, hf⟩ := Option.isSome_iff_exists.1 (hfinds rfl hready)
        refine .inr ⟨?_, f, ?_⟩
        · rw [move_own ha.isKnown hready]
          exact if_pos (by rw [hf]; rfl)
        · rw [move_happenings, records_of_ready hready]
          refine List.mem_append_right _ ?_
          show _ ∈ ((l.cached? e.table).map _).toList
          rw [hf]
          exact List.mem_singleton_self _
      · exact .inl (ready?_move_of_other ha.isKnown hm hready nofun)
    · exact .inr ⟨gone_move ha.orderly hl.known hnone m, f, mem_happenings_follow hfound [m]⟩
  unqueued {x} hx hcaller := by
    rcases held_move ha.isKnown hx with hold | henters
    · exact h.unqueued hold hcaller
    · cases henters with
      | demand | poll | again => cases hcaller
      | submit hready =>
        cases hcaller
        cases h.at_consult hready
  unsent x hmem hcaller := by
    rw [move_happenings] at hmem
    rcases List.mem_append.1 hmem with hold | hnew
    · exact h.unsent x hold hcaller
    · obtain ⟨task, p, stage, -, hready, hp⟩ := exchange_of_caller hnew hcaller
      cases p with
      | entry run y => exact h.unqueued (.inr ⟨task, _, duty?_of_ready? hready, rfl⟩) hp
      | probe => cases hp
      | lookup l' =>
        cases hp
        cases h.at_consult hready

/-- So it is with one that has just called. -/
theorem fromTable_call (h : e.Accounted) (l : Lookup) :
    (e.move (.obey (.lookup l))).FromTable e.nextTask l where
  told := .inl (e.ready?_spawn (.consult l))
  unqueued {x} hx hcaller := by
    have ha : (e.move (.obey (.lookup l))).Accounted := h.move _
    have hawait : ∃ l', (e.move (.obey (.lookup l))).duty? e.nextTask = some (.await l') := by
      rcases hx with hqueued | ⟨id, d, hd, hentry⟩
      · exact (ha.attended.queued hqueued hcaller).imp fun _ h => h.1
      · exact (ha.attended.taken hd hentry hcaller).imp fun _ h => h.1
    obtain ⟨l', hd⟩ := hawait
    have hready : (e.move (.obey (.lookup l))).ready? e.nextTask = some (.consult l) :=
      e.ready?_spawn (.consult l)
    cases hd.symm.trans (duty?_of_ready? hready)
  unsent x hmem hcaller := by
    rw [move_happenings] at hmem
    rcases List.mem_append.1 hmem with hold | hnew
    · exact Nat.lt_irrefl _ (h.known x hold _ hcaller)
    · cases hnew

/-- The caller is past the table, so it gets what comes back for it. -/
structure PastTable (e : Engine) (id : TaskId) : Prop where
  known : id < e.nextTask
  past : ∀ {l}, e.duty? id ≠ some (.consult l)
  told : ∀ {f}, .found id (.ok f) ∈ e.happenings → ∃ h ∈ e.happenings, h.caller? = some id

theorem PastTable.not_fromTable (h : e.PastTable id) : ¬ e.FromTable id l := by
  intro hfrom
  rcases hfrom.told with hready | ⟨-, f, hfound⟩
  · exact h.past (duty?_of_ready? hready)
  · obtain ⟨x, hmem, hcaller⟩ := h.told hfound
    exact hfrom.unsent x hmem hcaller

/-- No one goes back to the table. -/
theorem next_ne_consult : d.next e ≠ some (.consult l) := by
  intro h
  cases d with
  | exchange p stage =>
    cases hres : e.result? (.exchange p stage) with
    | some res =>
      rw [Duty.next_of_result hres] at h
      cases h
    | none =>
      rw [Duty.next_of_none hres] at h
      cases h
  | take run =>
    rw [Duty.next_take] at h
    split at h
    · cases hhead : e.queue.entries.head? <;> rw [hhead] at h <;> cases h
    · cases h
  | startPoll | poll | startProbe | probe | consult | route | submit | await =>
    unfold Duty.next at h
    grind
  | conclude p res =>
    unfold Duty.next at h
    grind

theorem PastTable.move (h : e.PastTable id) (ha : e.Accounted) (m : Move) :
    (e.move m).PastTable id where
  known := Nat.lt_of_lt_of_le h.known (move_evolves ha.orderly m).later.nextTask
  past {l} hd := by
    rcases move_duty_of_known ha.orderly h.known hd with ⟨d, rfl, hready, hnext⟩ | ⟨d, hd₀, hpass⟩
    · exact next_ne_consult hnext
    · cases hpass
      exact h.past hd₀
  told {f} hfound := by
    have hkept : (∃ h ∈ e.happenings, h.caller? = some id) →
        ∃ h ∈ (e.move m).happenings, h.caller? = some id := fun ⟨x, hmem, hcaller⟩ =>
      ⟨x, mem_happenings_follow hmem [m], hcaller⟩
    rw [move_happenings] at hfound
    rcases List.mem_append.1 hfound with hold | hnew
    · exact hkept (h.told hold)
    · obtain ⟨-, ⟨l, hready, -⟩ | ⟨l, body, hready, -⟩⟩ := found_cases hnew
      · exact absurd (duty?_of_ready? hready) h.past
      · obtain ⟨task, p, hmem, hcaller, -⟩ := ha.answered (duty?_of_ready? hready)
        exact hkept ⟨_, hmem, hcaller⟩

theorem PastTable.follow (h : e.PastTable id) (ha : e.Accounted) (ms : List Move) :
    (e.follow ms).PastTable id :=
  accounted_induction (P := (·.PastTable id)) (fun _ m ha h => h.move ha m) h ha ms

/-- A caller that does not find its answer goes past the table. -/
theorem pastTable_of_missing (h : e.Accounted) (hready : e.ready? id = some (.consult l))
    (hmissing : l.cached? e.table = none) : (e.move (.act id)).PastTable id where
  known := Nat.lt_of_lt_of_le (h.isKnown.lt (duty?_of_ready? hready))
    (move_evolves h.orderly _).later.nextTask
  past {l'} hd := by
    rw [move_own h.isKnown hready] at hd
    exact next_ne_consult hd
  told {f} hfound := by
    rw [move_happenings] at hfound
    rcases List.mem_append.1 hfound with hold | hnew
    · cases ((h.heard id).ended hold).2.symm.trans (duty?_of_ready? hready)
    · rw [records_of_ready hready] at hnew
      have hin : Happening.found id (.ok f) ∈
        ((l.cached? e.table).map fun f => Happening.found id (.ok f)).toList := hnew
      rw [hmissing] at hin
      cases hin

/-! ## Later callers -/

/-- What a caller was told was in the table by then. -/
theorem Accounted.cached_of_told (h : e.Accounted) (hserves : l.serves l' = true)
    (hfound : .found e.nextTask (.ok f) ∈ ((e.move (.obey (.lookup l))).follow ms).happenings) :
    ∃ before after, ms = before ++ after ∧
      (l'.cached? ((e.move (.obey (.lookup l))).follow before).table).isSome = true := by
  obtain ⟨before, m, after, rfl, hnew⟩ := h.told_of_call hfound
  have hl := (h.move (.obey (.lookup l))).looksUp_follow (e.looksUp_call l) before
  obtain ⟨rfl, ⟨l₀, hready, hcached⟩ | ⟨l₀, body, hready, hread⟩⟩ := found_cases hnew
  · cases hl.asked (duty?_of_ready? hready)
    exact ⟨before, _, rfl, Lookup.cached?_of_serves hserves (Option.isSome_of_eq_some hcached)⟩
  · cases hl.asked (duty?_of_ready? hready)
    refine ⟨before ++ [.act e.nextTask], after, by simp, ?_⟩
    rw [follow_append]
    exact Lookup.cached?_of_serves hserves
      (Option.isSome_of_eq_some (Lookup.cached?_of_read hserves hread))

/-- Whoever does not ask for parameters finds what was found before. -/
theorem cached?_follow (h : e.Accounted) (hl : l.isDetailed = false)
    (hc : (l.cached? e.table).isSome = true) (ms : List Move) :
    (l.cached? (e.follow ms).table).isSome = true := by
  refine accounted_induction (P := fun e => (l.cached? e.table).isSome = true) (fun e m h hc => ?_)
    hc h ms
  rcases fetched_move h m with hsame | ⟨id, l₀, body, f, rfl, hready, hread⟩
  · rwa [Lookup.cached?_of_fetched hsame]
  · exact Lookup.cached?_after_read hread hl hc

/-- What was found answers a later caller, unless it asks for parameters and they are replaced. -/
theorem cached_later (hs : s.Accounted) (hnone : ∀ id d, s.duty? id = some d → d.lookup? = none)
    {before between later : List Move} (hserves : l.serves l' = true)
    (hfound : .found (s.follow before).nextTask (.ok f) ∈
      (s.follow (before ++ .obey (.lookup l) :: between)).happenings)
    (hkept : ∀ system, l' = .categories system true →
      ¬ s.Replaced system (before ++ .obey (.lookup l) :: between ++ later)) :
    (l'.cached? (s.follow (before ++ .obey (.lookup l) :: between ++ later)).table).isSome = true := by
  rw [follow_append] at hfound
  obtain ⟨first, second, rfl, hcached⟩ := (hs.follow before).cached_of_told hserves hfound
  rw [← follow_cons, ← follow_append] at hcached
  have hsplit : before ++ .obey (.lookup l) :: (first ++ second) ++ later =
      before ++ .obey (.lookup l) :: first ++ (second ++ later) := by simp
  rw [hsplit] at hkept ⊢
  cases hdetailed : l'.isDetailed with
  | false =>
    rw [follow_append]
    exact cached?_follow (hs.follow _) hdetailed hcached _
  | true =>
    cases l' with
    | categories system withParameters =>
      obtain rfl : withParameters = true := hdetailed
      have hbefore := Lookup.cached?_detailed.1 hcached
      exact Lookup.cached?_detailed.2 ((detailed_iff hs hnone hbefore).2 (hkept system rfl))
    | systems | capabilities | body => cases hdetailed

/-- A caller that asks for parameters goes past the table if they are replaced when it looks. -/
theorem not_replaced_of_fromTable (hs : s.Accounted) {looked rest : List Move}
    (hready : (s.follow looked).ready? id = some (.consult (.categories system true)))
    (hfrom : (s.follow (looked ++ .act id :: rest)).FromTable id l) : ¬ s.Replaced system looked := by
  intro hreplaced
  have hmissing : (Lookup.categories system true).cached? (s.follow looked).table = none := by
    refine Option.not_isSome_iff_eq_none.1 fun hcached => ?_
    cases (Lookup.cached?_detailed.1 hcached).symm.trans (hreplaced.detail? hs)
  have ha : (s.follow looked).Accounted := hs.follow looked
  have hpast := (pastTable_of_missing ha hready hmissing).follow (ha.move _) rest
  rw [follow_append] at hfrom
  exact hpast.not_fromTable hfrom

/-- A caller for whom there is an answer from its call on is answered from the table. -/
theorem fromTable_of_cached (hs : s.Accounted) {after : List Move}
    (hcached : ∀ looked rest, after = looked ++ .act (s.follow ms).nextTask :: rest →
      (s.follow (ms ++ [.obey (.lookup l)] ++ looked)).ready? (s.follow ms).nextTask =
          some (.consult l) →
        (l.cached? (s.follow (ms ++ [.obey (.lookup l)] ++ looked)).table).isSome = true) :
    (s.follow (ms ++ [.obey (.lookup l)] ++ after)).FromTable (s.follow ms).nextTask l := by
  -- it waits for its turn, and whatever else happens leaves it there
  induction after using List.reverseRecOn with
  | nil =>
    rw [List.append_nil, follow_append]
    exact fromTable_call (hs.follow ms) l
  | append_singleton after m ih =>
    have hbefore := ih fun looked rest hafter => hcached looked (rest ++ [m]) <| by
      rw [hafter, List.append_assoc, List.cons_append]
    have hl : (s.follow (ms ++ [.obey (.lookup l)] ++ after)).LooksUp (s.follow ms).nextTask l := by
      rw [follow_append, follow_append]
      exact ((hs.follow ms).move _).looksUp_follow (looksUp_call _ l) after
    rw [← List.append_assoc, follow_append]
    refine hbefore.move (hs.follow _) hl fun hm hready => ?_
    exact hcached after [] (by rw [hm]) hready

/-- What later callers are promised in every run from a state. -/
structure FetchedOnce (s : Engine) : Prop where
  /-- After a caller was told what it found, a later one whose lookup that serves is answered from the
  table, unless it asks for parameters and the categories that had them are replaced when it looks. -/
  served : ∀ {ms before between after l l' f}, ms = before ++ .obey (.lookup l) :: between →
    .found (s.follow before).nextTask (.ok f) ∈ (s.follow ms).happenings → l.serves l' = true →
      let call := ms ++ [.obey (.lookup l')]
      let id := (s.follow ms).nextTask
      ((s.follow (call ++ after)).FromTable id l' ↔ ∀ system looked rest,
        l' = .categories system true → after = looked ++ .act id :: rest →
          (s.follow (call ++ looked)).ready? id = some (.consult l') →
            ¬ s.Replaced system (call ++ looked))
  /-- Categories with parameters are kept unless they are replaced. -/
  kept : ∀ {ms ms' system}, (s.follow ms).table.detail? system = some true →
    ((s.follow (ms ++ ms')).table.detail? system = some true ↔ ¬ s.Replaced system (ms ++ ms'))
  /-- Whoever asks for parameters is told what came back from a request for parameters. -/
  obtained : ∀ {ms before after system withParameters f},
    ms = before ++ .obey (.lookup (.categories system withParameters)) :: after →
      .found (s.follow before).nextTask (.ok f) ∈ (s.follow ms).happenings →
        (s.follow ms).Obtained system withParameters f

/-- A lookup is fetched once, but for categories with parameters that are replaced, in every run from the
start. Whoever asks for parameters never gets what came back without them. -/
theorem fetched_once (settings : EngineSettings) (service : Service) (observer : Option Observer)
    (script : Script) : (start settings service observer script).FetchedOnce := by
  have hs := accounted_start settings service observer script
  have hnone : ∀ id d, (start settings service observer script).duty? id = some d →
      d.lookup? = none := fun id d hd => by
    cases (duty?_start settings service observer script id).symm.trans hd
  refine ⟨?_, detailed_iff hs hnone, ?_⟩
  · rintro ms before between after l l' f rfl hfound hserves call id
    constructor
    · rintro hfrom system looked rest rfl rfl hready
      rw [← List.append_assoc] at hfrom
      exact not_replaced_of_fromTable hs hready hfrom
    · intro hkept
      refine fromTable_of_cached hs fun looked rest hafter hready => ?_
      rw [List.append_assoc]
      refine cached_later hs hnone hserves hfound fun system hl' => ?_
      rw [← List.append_assoc]
      exact hkept system looked rest hl' hafter hready
  · rintro ms before after system withParameters f rfl hfound
    rw [follow_append] at hfound ⊢
    exact (hs.follow before).obtained_of_call hfound

/-- Two callers ask for the categories of a system while none are kept, one of them for parameters too.
The one that does not is answered last, so a third one that asks for parameters has to go to the
service, although the first one was told them before. -/
theorem detailed_fetched_twice :
    let detailed := "[\x7b\"categoryId\":\"STATUS\",\"name\":\"Status\",\"parameters\":[]\x7d]"
    let shallow := "[\x7b\"categoryId\":\"STATUS\",\"name\":\"Status\"\x7d]"
    let s := start .default ⟨"http://localhost", 1000⟩ none
      ⟨[some ⟨10, .ok ⟨200, detailed⟩⟩, some ⟨0, .ok ⟨200, shallow⟩⟩], [], [], 0, 0⟩
    let first := [.obey (.lookup (.categories ⟨1⟩ true)), .obey (.lookup (.categories ⟨1⟩ false)),
      .act 0, .act 1, .act 0, .act 1, .act 0, .act 1, .act 0, .elapse 10, .act 0, .act 0]
    let second := [.act 1, .act 1, .act 1]
    let found : Finding := .categories [⟨"STATUS", "Status", some []⟩]
    .found 0 (.ok found) ∈ (s.follow (first ++ second)).happenings ∧
      (s.follow first).table.detail? ⟨1⟩ = some true ∧
      ¬ (s.follow (first ++ second ++ [.obey (.lookup (.categories ⟨1⟩ true))] ++ [.act 2])).FromTable 2
        (.categories ⟨1⟩ true) := by
  intro detailed shallow s first second found
  have hfetched : s.FetchedOnce := fetched_once ..
  have hkept : (s.follow first).table.detail? ⟨1⟩ = some true := by decide +kernel
  have hlost : (s.follow (first ++ (second ++ [.obey (.lookup (.categories ⟨1⟩ true))]))).table.detail?
    ⟨1⟩ = some false := by decide +kernel
  have hnext : (s.follow (first ++ second)).nextTask = 2 := by decide +kernel
  have htold : .found 0 (.ok found) ∈ (s.follow (first ++ second)).happenings := by
    have hmem : (0, found) ∈ (s.follow (first ++ second)).happenings.filterMap Happening.finding? := by
      decide +kernel
    obtain ⟨x, hx, hfinding⟩ := List.mem_filterMap.1 hmem
    exact Happening.finding?_eq_some.1 hfinding ▸ hx
  refine ⟨htold, hkept, fun hfrom => ?_⟩
  have hready : (s.follow (first ++ second ++ [.obey (.lookup (.categories ⟨1⟩ true))])).ready? 2 =
      some (.consult (.categories ⟨1⟩ true)) := by
    rw [follow_append, ← hnext]
    exact ready?_spawn _ _
  have hreplaced : s.Replaced ⟨1⟩ (first ++ second ++ [.obey (.lookup (.categories ⟨1⟩ true))]) := by
    rw [List.append_assoc]
    refine Classical.not_not.1 fun hnot => ?_
    cases hlost.symm.trans ((hfetched.kept hkept).2 hnot)
  have hserved := @FetchedOnce.served s hfetched (first ++ second) [] _ [.act 2]
    (.categories ⟨1⟩ true) (.categories ⟨1⟩ true) found rfl htold rfl
  rw [hnext] at hserved
  exact hserved.1 hfrom ⟨1⟩ [] [] rfl rfl hready hreplaced

end Engine

end HeatWatch
