import HeatWatch.Proofs.Table.Refusals

/-!
# What only lookups bring

What a system is able to do and the categories of its parameters are kept for the lookups to come.
Nothing takes them away, but a listing of categories can take the place of another one, whether it has
more of the parameters or less. Main statements:

* `deliver_fetched`: no other result changes any of it;
* `cached?_of_read`: what a lookup has found is kept;
* `cached?_of_serves`: what is kept for a lookup also answers those that it serves;
* `cached?_after_read`: a lookup without parameters finds what it found before, whatever comes in.
-/

namespace HeatWatch

open Json (of_map_ok)

/-- What only lookups bring, of all that is kept for a system. -/
def SystemEntry.fetched (e : SystemEntry) : SystemEntry :=
  { SystemEntry.empty with capabilities := e.capabilities, categories := e.categories }

/-- Only lookups make the request. -/
def Request.isLookedUp : Request → Bool
  | .getConfig _ | .getCategories .. => true
  | _ => false

namespace SystemTable

variable (t : SystemTable) (id id' : SystemId)

/-- The categories that are kept for a system, as they were fetched. -/
def listing? : Option CachedCategories := (t.entry id).categories

/-- Whether the categories that are kept for a system have their parameters; nothing if none are
kept. -/
def detail? : Option Bool := (t.listing? id).map (·.withParameters)

/-! ## Changes that leave it alone -/

variable {t t' : SystemTable} {id id' : SystemId} {withParameters : Bool}

/-- No other result brings any of it. -/
theorem Takes.fetched {r : Request} (h : t.Takes r t') (hr : r.isLookedUp = false) (id : SystemId) :
    (t'.entry id).fetched = (t.entry id).fetched := by
  cases h with
  | listing ss => exact t.entry_mergeSystems_of_same id (fun _ _ => rfl) ss
  | record _ s => exact t.entry_modify_of_same s.id id fun _ => rfl
  | capabilities | categories => cases hr
  | nothing => rfl

theorem listing?_of_fetched (h : (t'.entry id).fetched = (t.entry id).fetched) :
    t'.listing? id = t.listing? id := congrArg (·.categories) h

theorem capabilities?_of_fetched (h : (t'.entry id).fetched = (t.entry id).fetched) :
    t'.capabilities? id = t.capabilities? id := congrArg (·.capabilities) h

/-! ## Listings -/

theorem listing?_setCategories (cs : List Category) :
    (t.setCategories id withParameters cs).listing? id' =
      if id = id' then some ⟨withParameters, cs⟩ else t.listing? id' := by
  unfold listing? setCategories
  rw [entry_modify]
  split <;> rfl

theorem capabilities?_setCapabilities (c : Capabilities) :
    (t.setCapabilities id c).capabilities? id' =
      if id = id' then some c else t.capabilities? id' := by
  unfold capabilities? setCapabilities
  rw [entry_modify]
  split <;> rfl

/-- The categories of a system are replaced when others of that system come in. -/
theorem Takes.listing? {r : Request} (h : t.Takes r t')
    (hr : ∀ withParameters, r ≠ .getCategories id withParameters) :
    t'.listing? id = t.listing? id := by
  cases h with
  | listing ss => exact listing?_of_fetched ((Takes.listing ss).fetched rfl id)
  | record id' s => exact listing?_of_fetched ((Takes.record id' s).fetched rfl id)
  | capabilities id' c => exact t.entry_modify_of_same (g := (·.categories)) id' id fun _ => rfl
  | categories id' withParameters cs =>
    refine (listing?_setCategories cs).trans (if_neg ?_)
    rintro rfl
    exact hr withParameters rfl
  | nothing => rfl

/-- What a system is able to do stays known. -/
theorem Takes.capabilities? {r : Request} (h : t.Takes r t')
    (hc : (t.capabilities? id).isSome = true) : (t'.capabilities? id).isSome = true := by
  cases h with
  | listing ss => rwa [capabilities?_of_fetched ((Takes.listing ss).fetched rfl id)]
  | record id' s => rwa [capabilities?_of_fetched ((Takes.record id' s).fetched rfl id)]
  | capabilities id' c =>
    rw [capabilities?_setCapabilities]
    split
    · rfl
    · exact hc
  | categories id' withParameters cs =>
    have hsame : (t.setCategories id' withParameters cs).capabilities? id = t.capabilities? id :=
      t.entry_modify_of_same id' id fun _ => rfl
    rwa [hsame]
  | nothing => exact hc

/-- Categories are found if those that are kept have the parameters that are asked for. -/
theorem categories?_eq_some {cs : List Category} : t.categories? id withParameters = some cs ↔
    ∃ p, t.listing? id = some ⟨p, cs⟩ ∧ (withParameters = true → p = true) := by
  unfold categories? listing?
  cases (t.entry id).categories with
  | none => exact ⟨nofun, nofun⟩
  | some c =>
    obtain ⟨p, cs'⟩ := c
    cases p <;> cases withParameters <;> simp

theorem categories?_isSome : (t.categories? id withParameters).isSome = true ↔
    ∃ p, t.detail? id = some p ∧ (withParameters = true → p = true) := by
  constructor
  · intro h
    obtain ⟨cs, hcs⟩ := Option.isSome_iff_exists.1 h
    obtain ⟨p, hlisting, hp⟩ := categories?_eq_some.1 hcs
    exact ⟨p, congrArg _ hlisting, hp⟩
  · rintro ⟨p, hdetail, hp⟩
    obtain ⟨⟨p', cs⟩, hlisting, rfl⟩ := Option.map_eq_some_iff.1 hdetail
    exact Option.isSome_of_eq_some (categories?_eq_some.2 ⟨p', hlisting, hp⟩)

end SystemTable

namespace Dispatch

variable {r : Request}

/-- The result of a request that is no lookup brings nothing of it. -/
theorem deliver_fetched (hr : r.isLookedUp = false) (t : SystemTable) (body : String)
    (id : SystemId) : ((deliver t r body).1.entry id).fetched = (t.entry id).fetched := by
  cases h : decode t r body with
  | error f => rw [deliver_of_error h]
  | ok result =>
    obtain ⟨u, t'⟩ := result
    rw [deliver_table h]
    exact (takes_of_decode h).fetched hr id

end Dispatch

/-! ## Lookups -/

namespace Lookup

/-- What one lookup found is what another one looks for: it is about the same system, and has the
parameters if they are asked for. -/
def serves : Lookup → Lookup → Bool
  | .capabilities id, .capabilities id' => id = id'
  | .categories id withParameters, .categories id' withParameters' =>
    id = id' && (withParameters || !withParameters')
  | _, _ => false

/-- It asks for parameters. -/
def isDetailed : Lookup → Bool
  | .categories _ withParameters => withParameters
  | _ => false

variable {t t' : SystemTable} {body : String} {l l' : Lookup} {f : Finding} {id : SystemId}
  {withParameters : Bool}

theorem serves_cases (h : l.serves l' = true) : (∃ id, l = .capabilities id ∧ l' = .capabilities id) ∨
    ∃ id p q, l = .categories id p ∧ l' = .categories id q ∧ (q = true → p = true) := by
  unfold serves at h
  split at h
  case h_1 id id' =>
    obtain rfl := of_decide_eq_true h
    exact .inl ⟨id, rfl, rfl⟩
  case h_2 id p id' q =>
    obtain ⟨hid, hp⟩ := Bool.and_eq_true_iff.1 h
    obtain rfl := of_decide_eq_true hid
    refine .inr ⟨id, p, q, rfl, rfl, ?_⟩
    rintro rfl
    rwa [Bool.not_true, Bool.or_false] at hp
  case h_3 => cases h

/-- Categories are found in the table if they are kept, with the parameters that are asked for. -/
theorem cached?_categories : ((categories id withParameters).cached? t).isSome = true ↔
    ∃ p, t.detail? id = some p ∧ (withParameters = true → p = true) := by
  have hcached : ((categories id withParameters).cached? t).isSome =
    (t.categories? id withParameters).isSome := Option.isSome_map ..
  rw [hcached, SystemTable.categories?_isSome]

theorem cached?_detailed : ((categories id true).cached? t).isSome = true ↔
    t.detail? id = some true :=
  cached?_categories.trans ⟨fun ⟨_, hp, htrue⟩ => htrue rfl ▸ hp, fun h => ⟨true, h, fun _ => rfl⟩⟩

theorem detail?_of_missing (h : (categories id false).cached? t = none) : t.detail? id = none := by
  refine Option.eq_none_iff_forall_ne_some.2 fun p hp => ?_
  have hfound : ((categories id false).cached? t).isSome = true :=
    cached?_categories.2 ⟨p, hp, nofun⟩
  rw [h] at hfound
  cases hfound

/-- What is kept for a lookup is part of what only lookups bring. -/
theorem cached?_of_fetched (h : ∀ id, (t'.entry id).fetched = (t.entry id).fetched) (l : Lookup) :
    l.cached? t' = l.cached? t := by
  cases l with
  | systems | body => rfl
  | capabilities id =>
    exact congrArg (Option.map Finding.capabilities) (SystemTable.capabilities?_of_fetched (h id))
  | categories id withParameters =>
    have hlisting : (t'.entry id).categories = (t.entry id).categories :=
      SystemTable.listing?_of_fetched (h id)
    show (t'.categories? id withParameters).map _ = (t.categories? id withParameters).map _
    unfold SystemTable.categories?
    rw [hlisting]

/-- The answer to a lookup answers those that it serves. -/
theorem cached?_of_serves (hs : l.serves l' = true) (h : (l.cached? t).isSome = true) :
    (l'.cached? t).isSome = true := by
  rcases serves_cases hs with ⟨id, rfl, rfl⟩ | ⟨id, p, q, rfl, rfl, hpq⟩
  · exact h
  · obtain ⟨p', hdetail, hp⟩ := cached?_categories.1 h
    exact cached?_categories.2 ⟨p', hdetail, fun hq => hp (hpq hq)⟩

/-- The listing that a lookup has read is kept. -/
theorem listing?_of_read (h : (categories id withParameters).read t body = .ok (f, t')) :
    ∃ cs, Response.categories.decode body = .ok cs ∧ f = .categories cs ∧
      t'.listing? id = some ⟨withParameters, cs⟩ := by
  obtain ⟨cs, hcs, heq⟩ := of_map_ok h
  cases heq
  exact ⟨cs, hcs, rfl, (SystemTable.listing?_setCategories cs).trans (if_pos rfl)⟩

/-- Nothing else that is read takes its place. -/
theorem listing?_of_other (h : l.read t body = .ok (f, t'))
    (hl : ∀ withParameters, l ≠ .categories id withParameters) : t'.listing? id = t.listing? id := by
  cases l with
  | systems | capabilities => exact (takes_of_read h).listing? fun _ => nofun
  | categories id' withParameters =>
    refine (takes_of_read h).listing? fun withParameters' heq => hl withParameters ?_
    cases heq
    rfl
  | body =>
    cases h
    rfl

/-- What a lookup has found is kept, if it is of the kind that is. -/
theorem cached?_of_read (hs : l.serves l' = true) (h : l.read t body = .ok (f, t')) :
    l.cached? t' = some f := by
  rcases serves_cases hs with ⟨id, rfl, -⟩ | ⟨id, p, -, rfl, -, -⟩
  · obtain ⟨c, -, heq⟩ := of_map_ok h
    cases heq
    show Option.map _ ((t.setCapabilities id c).capabilities? id) = _
    rw [SystemTable.capabilities?_setCapabilities, if_pos rfl]
    rfl
  · obtain ⟨cs, -, rfl, hlisting⟩ := listing?_of_read h
    show Option.map _ (t'.categories? id p) = _
    rw [SystemTable.categories?_eq_some.2 ⟨p, hlisting, fun hp => hp⟩]
    rfl

/-- A lookup that does not ask for parameters is answered as long as it once was. -/
theorem cached?_after_read (h : l.read t body = .ok (f, t')) (hl : l'.isDetailed = false)
    (hc : (l'.cached? t).isSome = true) : (l'.cached? t').isSome = true := by
  cases l' with
  | systems | body => exact hc
  | capabilities id =>
    exact (Option.isSome_map ..).trans
      ((takes_of_read h).capabilities? ((Option.isSome_map ..).symm.trans hc))
  | categories id withParameters =>
    obtain rfl : withParameters = false := hl
    obtain ⟨p, hdetail, -⟩ := cached?_categories.1 hc
    refine cached?_categories.2 ?_
    by_cases hread : ∃ p', l = .categories id p'
    · obtain ⟨p', rfl⟩ := hread
      obtain ⟨cs, -, -, hlisting⟩ := listing?_of_read h
      exact ⟨p', congrArg _ hlisting, nofun⟩
    · have hsame := listing?_of_other h (not_exists.1 hread)
      exact ⟨p, (congrArg _ hsame).trans hdetail, nofun⟩

end Lookup

end HeatWatch
