import HeatWatch.Dispatch
import HeatWatch.Lookup
import HeatWatch.Proofs.Json.Records

/-!
# What results change

The result of a request changes what was fetched of a system, and never what the host gave. It
concerns the system that the request is aimed at, but for the record of a system: that one says
itself which system it is of, and nothing makes it the one that was asked for. Main statements:

* `takes_of_decode`, `takes_of_read`: what a result can put into the table;
* `deliver_hosted`, `read_hosted`: results leave alone what the host gave;
* `callback_mem_deliver`: who is told what;
* `isolated_iff`: when a result concerns only the system that the request is aimed at.
-/

namespace HeatWatch

/-- What the host gave: all that is kept but what was fetched. -/
def SystemEntry.hosted (e : SystemEntry) : SystemEntry :=
  { e with record := none, capabilities := none, categories := none }

namespace SystemTable

variable (t : SystemTable) (id id' : SystemId)

theorem entry_of_mem {t : SystemTable} {id : SystemId} {e : SystemEntry}
    (h : (id, e) ∈ t.entries.entries) : t.entry id = e := by
  unfold entry
  rw [(SortedMap.mem_entries_iff ..).1 h]
  rfl

theorem entry_modify_of_ne {id id' : SystemId} (h : id ≠ id') (f : SystemEntry → SystemEntry) :
    (t.modify id f).entry id' = t.entry id' := by
  rw [entry_modify, if_neg h]

/-! ## What the host gave -/

/-- What a change of entries leaves alone, it leaves alone in the table. -/
theorem entry_modify_of_same {α : Type} {g : SystemEntry → α} {f : SystemEntry → SystemEntry}
    (hf : ∀ e, g (f e) = g e) : g ((t.modify id f).entry id') = g (t.entry id') := by
  rw [entry_modify]
  split
  case isTrue h => rw [hf, h]
  case isFalse => rfl

theorem entry_mergeSystems_of_same {α : Type} {g : SystemEntry → α}
    (hg : ∀ e s, g (SystemEntry.mergeRecord e s) = g e) (ss : List System) :
    g ((t.mergeSystems ss).entry id) = g (t.entry id) := by
  unfold mergeSystems
  induction ss generalizing t with
  | nil => rfl
  | cons s ss ih => exact (ih _).trans (entry_modify_of_same t s.id id fun e => hg e s)

@[simp] theorem hosted_mergeSystems (ss : List System) :
    ((t.mergeSystems ss).entry id').hosted = (t.entry id').hosted :=
  entry_mergeSystems_of_same t id' (fun _ _ => rfl) ss

@[simp] theorem hosted_updateSystem (s : System) :
    ((t.updateSystem s).2.entry id').hosted = (t.entry id').hosted :=
  entry_modify_of_same t s.id id' fun _ => rfl

@[simp] theorem hosted_setCapabilities (c : Capabilities) :
    ((t.setCapabilities id c).entry id').hosted = (t.entry id').hosted :=
  entry_modify_of_same t id id' fun _ => rfl

@[simp] theorem hosted_setCategories (withParameters : Bool) (cs : List Category) :
    ((t.setCategories id withParameters cs).entry id').hosted = (t.entry id').hosted :=
  entry_modify_of_same t id id' fun _ => rfl

/-! ## One system -/

theorem entry_setCapabilities_of_ne {id id' : SystemId} (h : id' ≠ id) (c : Capabilities) :
    (t.setCapabilities id c).entry id' = t.entry id' := by
  unfold setCapabilities
  exact entry_modify_of_ne t h.symm _

theorem entry_setCategories_of_ne {id id' : SystemId} (h : id' ≠ id) (withParameters : Bool)
    (cs : List Category) : (t.setCategories id withParameters cs).entry id' = t.entry id' := by
  unfold setCategories
  exact entry_modify_of_ne t h.symm _

/-- A record is kept for the system that it names. -/
theorem entry_updateSystem (s : System) : (t.updateSystem s).2.entry id' =
    if s.id = id' then { t.entry s.id with record := some (t.updateSystem s).1 }
    else t.entry id' := by
  have htable : (t.updateSystem s).2 =
      t.modify s.id fun e => { e with record := some (t.updateSystem s).1 } := rfl
  rw [htable, entry_modify]

theorem updateSystem_id (s : System) : (t.updateSystem s).1.id = s.id := by
  unfold updateSystem
  dsimp only
  split <;> rfl

/-! ## Results -/

/-- What the result of a request can put into the table. -/
inductive Takes (t : SystemTable) : Request → SystemTable → Prop
  | listing (ss : List System) : Takes t .listSystems (t.mergeSystems ss)
  | record (id : SystemId) (s : System) : Takes t (.getSystem id) (t.updateSystem s).2
  | capabilities (id : SystemId) (c : Capabilities) :
      Takes t (.getConfig id) (t.setCapabilities id c)
  | categories (id : SystemId) (withParameters : Bool) (cs : List Category) :
      Takes t (.getCategories id withParameters) (t.setCategories id withParameters cs)
  | nothing (r : Request) : Takes t r t

variable {t t' : SystemTable} {r : Request} {id : SystemId}

/-- No result changes what the host gave. -/
theorem Takes.hosted (h : t.Takes r t') (id : SystemId) :
    (t'.entry id).hosted = (t.entry id).hosted := by
  cases h with
  | listing ss => exact t.hosted_mergeSystems id ss
  | record _ s => exact t.hosted_updateSystem id s
  | capabilities _ c => exact t.hosted_setCapabilities _ id c
  | categories _ _ cs => exact t.hosted_setCategories _ id _ cs
  | nothing => rfl

/-- Any other result than the record of a system changes its own system only. -/
theorem Takes.entry (h : t.Takes r t') (htarget : r.target? = some id) (hr : r ≠ .getSystem id) :
    ∀ id', id' ≠ id → t'.entry id' = t.entry id' := by
  cases h with
  | listing => cases htarget
  | record => exact absurd (congrArg Request.getSystem (Option.some.inj htarget)) hr
  | capabilities _ c =>
    cases htarget
    exact fun id' hne => t.entry_setCapabilities_of_ne hne c
  | categories _ _ cs =>
    cases htarget
    exact fun id' hne => t.entry_setCategories_of_ne hne _ cs
  | nothing => exact fun _ _ => rfl

end SystemTable

open Json (of_map_ok)

namespace Dispatch

variable {t t' : SystemTable} {r : Request} {body : String} {u : Option Update} {id : SystemId}

/-- What is read out of a body is put into the table. -/
theorem takes_of_decode (h : decode t r body = .ok (u, t')) : t.Takes r t' := by
  unfold decode at h
  cases r with
  | listSystems =>
    obtain ⟨ss, -, heq⟩ := of_map_ok h
    cases heq
    exact .listing ss
  | getSystem id =>
    obtain ⟨s, -, heq⟩ := of_map_ok h
    cases heq
    exact .record id s
  | getConfig id =>
    obtain ⟨c, -, heq⟩ := of_map_ok h
    cases heq
    exact .capabilities id c
  | getCategories id withParameters =>
    obtain ⟨cs, -, heq⟩ := of_map_ok h
    cases heq
    exact .categories id withParameters cs
  | getStatus | getSoftware | getAlarm | getParameters | getMode =>
    obtain ⟨a, -, heq⟩ := of_map_ok h
    cases heq
    exact .nothing _
  | setParameters | setMode =>
    dsimp only at h
    split at h
    · cases h
      exact .nothing _
    · obtain ⟨a, -, heq⟩ := of_map_ok h
      cases heq
      exact .nothing _
  | upsertThermostat =>
    cases h
    exact .nothing _

theorem decode_hosted (h : decode t r body = .ok (u, t')) (id : SystemId) :
    (t'.entry id).hosted = (t.entry id).hosted := (takes_of_decode h).hosted id

/-- The table after a delivery is the one that was read, if the body could be read. -/
theorem deliver_table (h : decode t r body = .ok (u, t')) : (deliver t r body).1 = t' := by
  unfold deliver
  rw [h]
  cases u with
  | none => rfl
  | some u =>
    dsimp only
    split
    · rfl
    · split <;> rfl

theorem deliver_of_error {f : ParseError} (h : decode t r body = .error f) :
    (deliver t r body).1 = t := by
  unfold deliver
  rw [h]

/-- A result leaves alone what the host gave. -/
theorem deliver_hosted (t : SystemTable) (r : Request) (body : String) (id : SystemId) :
    ((deliver t r body).1.entry id).hosted = (t.entry id).hosted := by
  cases h : decode t r body with
  | error f => rw [deliver_of_error h]
  | ok result =>
    obtain ⟨u, t'⟩ := result
    rw [deliver_table h]
    exact decode_hosted h id

/-! ## Who is told -/

theorem callback_mem_receive {l l' : Listener} {s s' : SystemId} {v v' : Update} :
    .callback l' s' v' ∈ l.receive s v ↔ l' = l ∧ s' = s ∧ v' = v := by
  unfold Listener.receive
  constructor
  · intro h
    rcases List.mem_cons.1 h with heq | hlog
    · cases heq
      exact ⟨rfl, rfl, rfl⟩
    · -- the rest of it goes to the log
      split at hlog
      case h_1 =>
        obtain ⟨line, -, heq⟩ := List.mem_map.1 hlog
        cases heq
      case h_2 | h_3 => cases hlog
  · rintro ⟨rfl, rfl, rfl⟩
    exact List.mem_cons_self

/-- What was read is told to the listener of the system that the request is aimed at, and to no one
else. -/
theorem callback_mem_deliver {l : Listener} {s : SystemId} {v : Update} :
    .callback l s v ∈ (deliver t r body).2 ↔
      (∃ t', decode t r body = .ok (some v, t')) ∧ r.target? = some s ∧ t.listener? s = some l := by
  have hlistener : ∀ {u t'}, decode t r body = .ok (u, t') → t'.listener? s = t.listener? s :=
    fun h => congrArg (·.listener) (decode_hosted h s)
  unfold deliver
  cases h : decode t r body with
  | error f => simp
  | ok result =>
    obtain ⟨u, t'⟩ := result
    cases u with
    | none => simp
    | some u =>
      cases htarget : r.target? with
      | none => simp
      | some id =>
        dsimp only
        constructor
        · intro hmem
          split at hmem
          case h_1 l' hl' =>
            obtain ⟨rfl, rfl, rfl⟩ := callback_mem_receive.1 hmem
            exact ⟨⟨t', rfl⟩, rfl, (hlistener h).symm.trans hl'⟩
          case h_2 => cases List.mem_singleton.1 hmem
        · rintro ⟨⟨t'', heq⟩, hid, hl⟩
          cases heq
          cases hid
          have hl' : t'.listener? s = some l := (hlistener h).trans hl
          rw [hl']
          exact callback_mem_receive.2 ⟨rfl, rfl, rfl⟩

/-! ## Isolation -/

/-- A result concerns one system: no entry of another one changes, and only its listener is told
anything, about it. -/
structure Isolated (t : SystemTable) (id : SystemId) (result : SystemTable × List Notice) : Prop where
  entries : ∀ id', id' ≠ id → result.1.entry id' = t.entry id'
  callbacks : ∀ l s u, .callback l s u ∈ result.2 →
    t.listener? id = some l ∧ s = id ∧ u.subject s = id

/-- What else is told than the record of a system names none. -/
theorem decode_subject {v : Update} (hr : ∀ id, r ≠ .getSystem id)
    (h : decode t r body = .ok (some v, t')) (id : SystemId) : v.subject id = id := by
  unfold decode at h
  cases r with
  | getSystem id => exact absurd rfl (hr id)
  | listSystems | getConfig | getCategories =>
    obtain ⟨a, -, heq⟩ := of_map_ok h
    cases heq
  | getStatus | getSoftware | getAlarm | getParameters | getMode =>
    obtain ⟨a, -, heq⟩ := of_map_ok h
    cases heq
    rfl
  | setParameters | setMode =>
    dsimp only at h
    split at h
    · cases h
    · obtain ⟨a, -, heq⟩ := of_map_ok h
      cases heq
      rfl
  | upsertThermostat => cases h

theorem isolated_of_other (htarget : r.target? = some id) (hr : r ≠ .getSystem id) :
    Isolated t id (deliver t r body) := by
  refine ⟨fun id' hne => ?_, fun l s u hmem => ?_⟩
  · cases h : decode t r body with
    | error f => rw [deliver_of_error h]
    | ok result =>
      obtain ⟨u, t'⟩ := result
      rw [deliver_table h]
      exact (takes_of_decode h).entry htarget hr id' hne
  · obtain ⟨⟨t', h⟩, hs, hl⟩ := callback_mem_deliver.1 hmem
    obtain rfl : id = s := Option.some.inj (htarget.symm.trans hs)
    refine ⟨hl, rfl, decode_subject (fun id' heq => hr ?_) h id⟩
    rw [heq] at htarget ⊢
    exact congrArg Request.getSystem (Option.some.inj htarget)

theorem decode_getSystem {s : System} (hs : Response.system.decode body = .ok s) :
    decode t (.getSystem id) body =
      .ok (some (.system (t.updateSystem s).1), (t.updateSystem s).2) := by
  unfold decode
  dsimp only
  rw [hs]
  rfl

/-- What the record of a system leads to, of whichever system it is. -/
theorem deliver_record (t : SystemTable) (id : SystemId) {s : System} (hs : Response.system.decode body = .ok s) :
    (∀ id', (deliver t (.getSystem id) body).1.entry id' =
        if s.id = id' then { t.entry s.id with record := some (t.updateSystem s).1 }
        else t.entry id') ∧
      ∀ l s' u, .callback l s' u ∈ (deliver t (.getSystem id) body).2 ↔
        t.listener? id = some l ∧ s' = id ∧ u = .system (t.updateSystem s).1 := by
  have hd : decode t (.getSystem id) body = _ := decode_getSystem hs
  refine ⟨fun id' => ?_, fun l s' u => ?_⟩
  · rw [deliver_table hd]
    exact t.entry_updateSystem id' s
  · rw [callback_mem_deliver, hd]
    constructor
    · rintro ⟨⟨t', heq⟩, hid, hl⟩
      cases heq
      cases hid
      exact ⟨hl, rfl, rfl⟩
    · rintro ⟨hl, rfl, rfl⟩
      exact ⟨⟨_, rfl⟩, rfl, hl⟩

/-- The record of another system concerns the system that was asked for in no way. It goes unnoticed
only if no one listens and the table knows the record. -/
theorem isolated_record_iff {s : System} (hs : Response.system.decode body = .ok s) :
    Isolated t id (deliver t (.getSystem id) body) ↔ (s.id ≠ id →
      t.listener? id = none ∧ t.system? s.id = some (t.updateSystem s).1) := by
  obtain ⟨hentries, hcallbacks⟩ := deliver_record t id hs
  have hsubject := t.updateSystem_id s
  constructor
  · intro h hne
    have hrecord := h.entries s.id hne
    rw [hentries, if_pos rfl] at hrecord
    refine ⟨Option.eq_none_iff_forall_ne_some.2 fun l hl => hne ?_, ?_⟩
    · -- the listener would be told of the other system
      have htold := h.callbacks l id _ ((hcallbacks l id _).2 ⟨hl, rfl, rfl⟩)
      exact hsubject.symm.trans htold.2.2
    · exact (congrArg SystemEntry.record hrecord).symm
  · intro h
    refine ⟨fun id' hne => ?_, fun l s' u hmem => ?_⟩
    · rw [hentries]
      split
      case isTrue hid =>
        obtain ⟨-, hknown⟩ := h (hid ▸ hne)
        have hknown' : (t.entry s.id).record = some (t.updateSystem s).1 := hknown
        rw [← hknown', ← hid]
      case isFalse => rfl
    · obtain ⟨hl, rfl, rfl⟩ := (hcallbacks l s' u).1 hmem
      refine ⟨hl, rfl, ?_⟩
      show (t.updateSystem s).1.id = s'
      rw [hsubject]
      refine Decidable.not_not.1 fun hne => ?_
      cases hl.symm.trans (h hne).1

/-- The result of a request that is aimed at a system changes no entry of another one, and only its
own listener is told, about it, unless the request is for the record of the system and the response
has the record of another one. That record is kept for the other system, and told to the listener of
the system that was asked for; only if there is none, and the table has just that record, does
nothing come of it. -/
theorem isolated_iff (t : SystemTable) (r : Request) (body : String) (id : SystemId)
    (htarget : r.target? = some id) :
    (Isolated t id (deliver t r body) ↔ ∀ s, r = .getSystem id →
        Response.system.decode body = .ok s → s.id ≠ id →
          t.listener? id = none ∧ t.system? s.id = some (t.updateSystem s).1) ∧
      ∀ s, r = .getSystem id → Response.system.decode body = .ok s →
        (∀ id', (deliver t r body).1.entry id' =
          if s.id = id' then { t.entry s.id with record := some (t.updateSystem s).1 }
          else t.entry id') ∧
        (∀ l s' u, .callback l s' u ∈ (deliver t r body).2 ↔
          t.listener? id = some l ∧ s' = id ∧ u = .system (t.updateSystem s).1) ∧
        (t.updateSystem s).1.id = s.id := by
  refine ⟨?_, ?_⟩
  · by_cases hr : r = .getSystem id
    · subst hr
      cases hd : Response.system.decode body with
      | error f =>
        -- nothing comes of a body that cannot be read
        have hfails : decode t (.getSystem id) body = .error f := by
          unfold decode
          dsimp only
          rw [hd]
          rfl
        refine ⟨fun _ s _ heq => ?_, fun _ => ⟨fun _ _ => ?_, fun l s u hmem => ?_⟩⟩
        · cases heq
        · rw [deliver_of_error hfails]
        · obtain ⟨⟨t', heq⟩, -⟩ := callback_mem_deliver.1 hmem
          cases hfails.symm.trans heq
      | ok s =>
        rw [isolated_record_iff hd]
        constructor
        · intro h s' _ heq
          cases heq
          exact h
        · intro h
          exact h s rfl rfl
    · exact ⟨fun _ s heq => absurd heq hr, fun _ => isolated_of_other htarget hr⟩
  · rintro s rfl hs
    obtain ⟨hentries, hcallbacks⟩ := deliver_record t id hs
    exact ⟨hentries, hcallbacks, t.updateSystem_id s⟩

/-- The service answers a request for system 1 with the record of system 2, and the listener of system
1 is told of it. -/
theorem record_of_other_system :
    let t := (SystemTable.empty.registerListener ⟨1⟩ (.named "a")).2
    let r : Request := .getSystem ⟨1⟩
    let body := "\x7b\"systemId\":2,\"name\":\"Other\",\"productName\":\"F1245\"," ++
      "\"securityLevel\":\"ADMIN\",\"serialNumber\":\"1\"," ++
      "\"lastActivityDate\":\"2020-01-01T00:00:00Z\",\"connectionStatus\":\"ONLINE\"," ++
      "\"hasAlarmed\":false\x7d"
    r.target? = some ⟨1⟩ ∧ ¬ Isolated t ⟨1⟩ (deliver t r body) ∧
      ∃ s : System, s.id = ⟨2⟩ ∧ .callback (.named "a") ⟨1⟩ (.system s) ∈ (deliver t r body).2 := by
  intro t r body
  have hread : (Response.system.decode body).toOption.map (·.id) = some ⟨2⟩ := by decide +kernel
  obtain ⟨s, hs, hid⟩ : ∃ s, Response.system.decode body = .ok s ∧ s.id = ⟨2⟩ := by
    cases hd : Response.system.decode body with
    | error f =>
      rw [hd] at hread
      cases hread
    | ok s =>
      rw [hd] at hread
      exact ⟨s, rfl, Option.some.inj hread⟩
  obtain ⟨hiff, hrecord⟩ := isolated_iff t r body ⟨1⟩ rfl
  obtain ⟨-, hcallbacks, hkept⟩ := hrecord s rfl hs
  refine ⟨rfl, fun h => ?_, (t.updateSystem s).1, hkept.trans hid, ?_⟩
  · have hother : s.id ≠ ⟨1⟩ := by
      rw [hid]
      decide
    cases (hiff.1 h s rfl hs hother).1
  · exact (hcallbacks _ _ _).2 ⟨rfl, rfl, rfl⟩

end Dispatch

/-! ## Lookups -/

/-- What a lookup reads is put into the table, too. -/
theorem Lookup.takes_of_read {t t' : SystemTable} {body : String} {l : Lookup} {f : Finding}
    (h : l.read t body = .ok (f, t')) : t.Takes l.request t' := by
  unfold read at h
  cases l with
  | systems =>
    obtain ⟨ss, -, heq⟩ := of_map_ok h
    cases heq
    exact .listing ss
  | capabilities id =>
    obtain ⟨c, -, heq⟩ := of_map_ok h
    cases heq
    exact .capabilities id c
  | categories id withParameters =>
    obtain ⟨cs, -, heq⟩ := of_map_ok h
    cases heq
    exact .categories id withParameters cs
  | body r =>
    cases h
    exact .nothing r

/-- A lookup leaves alone what the host gave. -/
theorem Lookup.read_hosted {t t' : SystemTable} {body : String} {l : Lookup} {f : Finding}
    (h : l.read t body = .ok (f, t')) (id : SystemId) :
    (t'.entry id).hosted = (t.entry id).hosted := (takes_of_read h).hosted id

end HeatWatch
