import HeatWatch.Proofs.Settings.Configuration

/-!
# Blank variables

A template of an environment file leaves its variables blank, and a blank variable is meant to count as unset.
Main statements:

* `Config.complete_unset`: it does for each variable that is a number or a list of numbers;
* `Config.read_unset_of_ne`: and for each variable but the base address and the token file;
* `Config.blank_matters_iff`: when it makes a difference that one of these two is blank and not unset.
-/

namespace HeatWatch

open Text

/-! ## Variables -/

namespace Environment

/-- The environment without the variable. -/
def unset (e : Environment) (name : String) : Environment := ⟨e.bindings.filter fun b => b.1 ≠ name⟩

variable (e : Environment) {name name' s : String}

theorem get?_unset_self : (e.unset name).get? name = none := by
  refine List.lookup_eq_none_iff.2 ?_
  intro b hb
  have hname : b.1 ≠ name := of_decide_eq_true (List.mem_filter.1 hb).2
  exact bne_iff_ne.2 hname.symm

theorem get?_unset_of_ne (h : name' ≠ name) : (e.unset name).get? name' = e.get? name' := by
  unfold get? unset
  induction e.bindings with
  | nil => rfl
  | cons b bs ih =>
    obtain ⟨key, v⟩ := b
    rw [List.filter_cons, List.lookup_cons]
    by_cases hkey : key = name
    · -- the variable is another one than `name'`
      subst hkey
      rw [if_neg (by simp), beq_eq_false_iff_ne.2 h]
      exact ih
    · rw [if_pos (by simpa using hkey), List.lookup_cons, ih]

theorem text?_unset_of_ne (h : name' ≠ name) : (e.unset name).text? name' = e.text? name' := by
  unfold text?
  rw [get?_unset_of_ne e h]

/-- A blank variable has no entries. -/
theorem entries_of_blank {e : Environment} (hset : e.get? name = some (.text s)) (hblank : AllBlank s.toList) :
    e.entries name = [] := by
  have hcomma : ',' ∉ s.toList := by
    intro hmem
    cases hblank ',' hmem
  unfold entries
  rw [hset]
  dsimp only
  rw [List.splitOn_eq_singleton hcomma, List.map_singleton, trim_eq_nil_iff.2 hblank]
  rfl

theorem entries_unset (hset : e.get? name = some (.text s)) (hblank : AllBlank s.toList) :
    (e.unset name).entries name' = e.entries name' := by
  by_cases h : name' = name
  · subst h
    rw [entries_of_blank hset hblank]
    unfold entries
    rw [get?_unset_self]
  · unfold entries
    rw [get?_unset_of_ne e h]

end Environment

namespace Config

variable {files : Files} {e : Environment} {name name' s : String}

/-! ## Numbers -/

theorem setting?_unset (hset : e.get? name = some (.text s)) (hblank : AllBlank s.toList) :
    setting? (e.unset name) name' = setting? e name' := by
  by_cases h : name' = name
  · subst h
    have hsilent : e.Silent name' := by
      intro t ht
      cases hset.symm.trans ht
      exact hblank
    have hsilent' : (e.unset name').Silent name' := by
      intro t ht
      rw [Environment.get?_unset_self] at ht
      cases ht
    rw [setting?_eq_none_iff.2 hsilent, setting?_eq_none_iff.2 hsilent']
  · unfold setting? Environment.given?
    rw [Environment.text?_unset_of_ne e h]

theorem numbers_unset (hset : e.get? name = some (.text s)) (hblank : AllBlank s.toList) :
    numbers (e.unset name) name' = numbers e name' := by
  unfold numbers Entries.read
  rw [Entries.ofText_getD, Entries.ofText_getD, Environment.entries_unset e hset hblank]

/-- A blank variable is no number and no list of numbers. -/
theorem complete_unset (hset : e.get? name = some (.text s)) (hblank : AllBlank s.toList)
    (token : TokenSource) (base : String) : complete (e.unset name) token base = complete e token base := by
  unfold complete days seconds
  simp only [setting?_unset hset hblank, numbers_unset hset hblank]

/-- Whether the numbers can be read does not depend on the token and the base address. -/
theorem complete_eq_map (token token' : TokenSource) (base base' : String) :
    complete e token' base' = (complete e token base).map fun c => { c with token := token', base := base' } := by
  unfold complete
  change _ = (fun c : Config => { c with token := token', base := base' }) <$> _
  simp only [map_bind, map_pure, apply_ite (Functor.map _)]

/-! ## Faults -/

/-- The message says first which variable cannot be read. -/
def Blames (f : ConfigFault) (name : String) : Prop := ∃ what, f.message = name ++ what

theorem blames_of_days {default : Int} {f : ConfigFault} (h : days e name default = .error f) : Blames f name := by
  unfold days at h
  split at h
  case h_1 => cases h
  case h_2 =>
    split at h
    case h_1 => cases h
    case h_2 =>
      cases h
      exact ⟨_, rfl⟩

theorem blames_of_seconds {absent : Nat} {f : ConfigFault} (h : seconds e name absent = .error f) :
    Blames f name := by
  unfold seconds at h
  split at h
  case h_1 => cases h
  case h_2 =>
    split at h
    case h_1 => cases h
    case h_2 =>
      cases h
      exact ⟨_, rfl⟩

theorem blames_of_numbers {f : ConfigFault} (h : numbers e name = .error f) : Blames f name := by
  unfold numbers at h
  split at h
  case h_1 => cases h
  case h_2 m _ =>
    cases h
    exact ⟨": " ++ m, String.append_assoc⟩

/-- A fault of a number names its variable. -/
theorem exists_blames {token : TokenSource} {base : String} {f : ConfigFault}
    (h : complete e token base = .error f) :
    ∃ name ∈ ["SOFTWARE_CHECK_DAYS", "REQUEST_INTERVAL_SECS", "TRACKED_PARAMETERS", "SYSTEM_IDS",
      "UPDATE_INTERVAL_SECS", "REQUEST_TIMEOUT_SECS"], Blames f name := by
  rcases bind_eq_error_iff.1 h with hdays | ⟨_, -, h⟩
  · exact ⟨_, by simp, blames_of_days hdays⟩
  rcases bind_eq_error_iff.1 h with hrequest | ⟨_, -, h⟩
  · exact ⟨_, by simp, blames_of_seconds hrequest⟩
  split at h
  case isTrue =>
    cases h
    exact ⟨"REQUEST_INTERVAL_SECS", by simp, _, rfl⟩
  case isFalse =>
    rcases bind_eq_error_iff.1 h with htracked | ⟨_, -, h⟩
    · exact ⟨_, by simp, blames_of_numbers htracked⟩
    rcases bind_eq_error_iff.1 h with hsystems | ⟨_, -, h⟩
    · exact ⟨_, by simp, blames_of_numbers hsystems⟩
    rcases bind_eq_error_iff.1 h with hupdate | ⟨_, -, h⟩
    · exact ⟨_, by simp, blames_of_seconds hupdate⟩
    rcases bind_eq_error_iff.1 h with htimeout | ⟨_, -, h⟩
    · exact ⟨_, by simp, blames_of_seconds htimeout⟩
    · cases h

theorem message_noToken (path : String) : (ConfigFault.noToken path).message =
    "Missing access token: set UPLINK_ACCESS_TOKEN or provide " ++ path ++ " (UPLINK_TOKEN_FILE)" := rfl

/-- No fault of a number has the message of a missing token. -/
theorem message_ne_noToken {token : TokenSource} {base path : String} {f : ConfigFault}
    (h : complete e token base = .error f) : f.message ≠ (ConfigFault.noToken path).message := by
  obtain ⟨name, hname, what, hwhat⟩ := exists_blames h
  intro heq
  have hhead : (name ++ what).toList.head? = some 'M' := by
    rw [← hwhat, heq, message_noToken, String.toList_append, String.toList_append, List.head?_append,
      List.head?_append]
    rfl
  rw [String.toList_append, List.head?_append] at hhead
  simp only [List.mem_cons, List.not_mem_nil, or_false] at hname
  rcases hname with rfl | rfl | rfl | rfl | rfl | rfl <;> cases hhead

theorem noToken_message_inj {path path' : String}
    (h : (ConfigFault.noToken path).message = (ConfigFault.noToken path').message) : path = path' := by
  have htexts := congrArg String.toList h
  rw [message_noToken, message_noToken] at htexts
  simp only [String.toList_append] at htexts
  exact String.toList_injective (List.append_cancel_left (List.append_cancel_right htexts))

/-! ## Answers -/

/-- What there is to see of the settings: a configuration, or the message that there is none. -/
def answer (files : Files) (e : Environment) : Except String Config :=
  (read files e).mapError ConfigFault.message

theorem answer_of_ok {c : Config} (h : read files e = .ok c) : answer files e = .ok c := by
  rw [answer, h]
  rfl

theorem answer_of_error {f : ConfigFault} (h : read files e = .error f) : answer files e = .error f.message := by
  rw [answer, h]
  rfl

/-- A blank text is no path and no address that stands for a variable that is unset. -/
theorem ne_of_blank (hblank : AllBlank s.toList) : s ≠ "token.txt" ∧ s ≠ defaultBase := by
  constructor
  · rintro rfl
    cases hblank 't' (by decide)
  · rintro rfl
    cases hblank 'h' (by decide)

theorem tokenSource_unset_of_ne (hset : e.get? name = some (.text s)) (hblank : AllBlank s.toList)
    (hfile : name ≠ "UPLINK_TOKEN_FILE") : tokenSource files (e.unset name) = tokenSource files e := by
  unfold tokenSource tokenPath
  rw [setting?_unset hset hblank, Environment.text?_unset_of_ne e hfile.symm]

/-- A blank variable counts as unset, but for the base address and the token file. -/
theorem read_unset_of_ne (hset : e.get? name = some (.text s)) (hblank : AllBlank s.toList)
    (hbase : name ≠ "UPLINK_BASE_URL") (hfile : name ≠ "UPLINK_TOKEN_FILE") :
    read files (e.unset name) = read files e := by
  simp only [read_eq_complete, tokenSource_unset_of_ne hset hblank hfile, complete_unset hset hblank,
    Environment.text?_unset_of_ne e hbase.symm]

/-- Without a token of its own the variable of the token file decides. -/
theorem read_of_silent {path : String} (hsilent : e.Silent "UPLINK_ACCESS_TOKEN")
    (hpath : e.Gives "UPLINK_TOKEN_FILE" "token.txt" path) :
    read files e = if files.isFile path then complete e (.file path) ((e.text? "UPLINK_BASE_URL").getD defaultBase)
      else .error (.noToken path) := by
  have htoken : tokenPath e = path := Environment.text?_getD_eq_iff.2 hpath
  rw [read_eq_complete, tokenSource, setting?_eq_none_iff.2 hsilent]
  dsimp only
  rw [htoken]
  split
  case isTrue => rfl
  case isFalse => rfl

/-- With a token of its own the variable of the token file is not read. -/
theorem read_unset_file_of_said {cs : List Char} (hset : e.get? "UPLINK_TOKEN_FILE" = some (.text s))
    (hblank : AllBlank s.toList) (hsaid : e.Says "UPLINK_ACCESS_TOKEN" cs) :
    read files (e.unset "UPLINK_TOKEN_FILE") = read files e := by
  have htoken : tokenSource files (e.unset "UPLINK_TOKEN_FILE") = tokenSource files e := by
    unfold tokenSource
    rw [setting?_unset hset hblank, setting?_eq_some_iff.2 hsaid]
  simp only [read_eq_complete, htoken, complete_unset hset hblank,
    Environment.text?_unset_of_ne e (by decide : "UPLINK_BASE_URL" ≠ "UPLINK_TOKEN_FILE")]

/-- With the same numbers and another token or base address the answer is another one, if there is a
configuration. -/
theorem answer_ne_iff_of_complete {e₀ e' : Environment} {token token' : TokenSource} {base base' : String}
    (h : read files e = complete e₀ token base) (h' : read files e' = complete e₀ token' base')
    (hne : token ≠ token' ∨ base ≠ base') :
    answer files e' ≠ answer files e ↔ ∃ c, read files e = .ok c := by
  rw [complete_eq_map token token' base base'] at h'
  cases hc : complete e₀ token base with
  | error f =>
    rw [hc] at h h'
    refine iff_of_false ?_ ?_
    · exact not_not_intro ((answer_of_error h').trans (answer_of_error h).symm)
    · rintro ⟨c, hread⟩
      cases h.symm.trans hread
  | ok c =>
    rw [hc] at h h'
    refine iff_of_true ?_ ⟨c, h⟩
    rw [answer_of_ok h', answer_of_ok h]
    intro heq
    have hsame := Except.ok.inj heq
    obtain ⟨rfl, rfl, -⟩ := complete_eq_ok_iff.1 hc
    rcases hne with htoken | hbase
    · exact htoken (congrArg Config.token hsame).symm
    · exact hbase (congrArg Config.base hsame).symm

/-- A missing token is another answer than any that the numbers give. -/
theorem answer_ne_of_noToken {e₀ e' : Environment} {token : TokenSource} {base path : String}
    (h : read files e = complete e₀ token base) (h' : read files e' = .error (.noToken path)) :
    answer files e' ≠ answer files e := by
  rw [answer_of_error h']
  cases hc : complete e₀ token base with
  | ok c =>
    rw [answer_of_ok (h.trans hc)]
    exact nofun
  | error f =>
    rw [answer_of_error (h.trans hc)]
    intro heq
    exact message_ne_noToken hc (Except.error.inj heq).symm

/-- A blank base address shows if there is a configuration. -/
theorem answer_unset_base_ne_iff (hset : e.get? "UPLINK_BASE_URL" = some (.text s))
    (hblank : AllBlank s.toList) :
    answer files (e.unset "UPLINK_BASE_URL") ≠ answer files e ↔ ∃ c, read files e = .ok c := by
  have hgiven : (e.text? "UPLINK_BASE_URL").getD defaultBase = s := Environment.text?_getD_eq_iff.2 (.inl hset)
  have habsent : ((e.unset "UPLINK_BASE_URL").text? "UPLINK_BASE_URL").getD defaultBase = defaultBase := by
    rw [Environment.text?, Environment.get?_unset_self]
    rfl
  have hread := read_eq_complete files e
  have hread' := read_eq_complete files (e.unset "UPLINK_BASE_URL")
  rw [hgiven] at hread
  simp only [tokenSource_unset_of_ne hset hblank (by decide), complete_unset hset hblank, habsent] at hread'
  -- without a token the base address is not looked at
  cases htoken : tokenSource files e with
  | error f =>
    rw [htoken] at hread hread'
    refine iff_of_false ?_ ?_
    · exact not_not_intro ((answer_of_error hread').trans (answer_of_error hread).symm)
    · rintro ⟨c, hc⟩
      cases hread.symm.trans hc
  | ok token =>
    rw [htoken] at hread hread'
    exact answer_ne_iff_of_complete hread hread' (.inr (ne_of_blank hblank).2)

/-- Without a token of its own a blank path shows, unless there is a file at both paths and no configuration. -/
theorem answer_unset_file_ne_iff (hset : e.get? "UPLINK_TOKEN_FILE" = some (.text s))
    (hblank : AllBlank s.toList) (hsilent : e.Silent "UPLINK_ACCESS_TOKEN") :
    answer files (e.unset "UPLINK_TOKEN_FILE") ≠ answer files e ↔
      ¬ files.isFile s ∨ ¬ files.isFile "token.txt" ∨ ∃ c, read files e = .ok c := by
  have hsilent' : (e.unset "UPLINK_TOKEN_FILE").Silent "UPLINK_ACCESS_TOKEN" := by
    intro t ht
    rw [Environment.get?_unset_of_ne e (by decide)] at ht
    exact hsilent t ht
  have habsent : (e.unset "UPLINK_TOKEN_FILE").Gives "UPLINK_TOKEN_FILE" "token.txt" "token.txt" := by
    refine .inr ⟨?_, rfl⟩
    rw [Environment.get?_unset_self]
    exact nofun
  have hpath := (ne_of_blank hblank).1
  have hread : read files e = _ := read_of_silent hsilent (.inl hset)
  have hread' : read files (e.unset "UPLINK_TOKEN_FILE") = _ := read_of_silent hsilent' habsent
  rw [complete_unset hset hblank] at hread'
  -- both answers are what the numbers give, or one is that there is no token
  by_cases hblankFile : files.isFile s = true
  · rw [if_pos hblankFile] at hread
    by_cases hfile : files.isFile "token.txt" = true
    · rw [if_pos hfile] at hread'
      rw [answer_ne_iff_of_complete hread hread' (.inl (mt TokenSource.file.inj hpath))]
      simp [hblankFile, hfile]
    · rw [if_neg hfile] at hread'
      exact iff_of_true (answer_ne_of_noToken hread hread') (.inr (.inl hfile))
  · rw [if_neg hblankFile] at hread
    refine iff_of_true ?_ (.inl hblankFile)
    by_cases hfile : files.isFile "token.txt" = true
    · rw [if_pos hfile] at hread'
      exact (answer_ne_of_noToken hread' hread).symm
    · -- both paths lead nowhere, and the messages name them
      rw [if_neg hfile] at hread'
      rw [answer_of_error hread', answer_of_error hread]
      intro heq
      exact hpath (noToken_message_inj (Except.error.inj heq)).symm

/-- When it makes a difference that a variable is blank and not unset: a configuration takes a blank base address
as it is, and without a token of its own the blank path is looked for in place of the default one. -/
theorem blank_matters_iff (files : Files) {e : Environment} {name s : String}
    (hset : e.get? name = some (.text s)) (hblank : AllBlank s.toList) :
    answer files (e.unset name) ≠ answer files e ↔
      (name = "UPLINK_BASE_URL" ∧ ∃ c, read files e = .ok c) ∨
      (name = "UPLINK_TOKEN_FILE" ∧ e.Silent "UPLINK_ACCESS_TOKEN" ∧
        (¬ files.isFile s ∨ ¬ files.isFile "token.txt" ∨ ∃ c, read files e = .ok c)) := by
  by_cases hbase : name = "UPLINK_BASE_URL"
  · subst hbase
    rw [answer_unset_base_ne_iff hset hblank]
    simp
  by_cases hfile : name = "UPLINK_TOKEN_FILE"
  · subst hfile
    cases hsetting : setting? e "UPLINK_ACCESS_TOKEN" with
    | none =>
      have hsilent := setting?_eq_none_iff.1 hsetting
      rw [answer_unset_file_ne_iff hset hblank hsilent]
      simp [hsilent]
    | some cs =>
      have hsaid := setting?_eq_some_iff.1 hsetting
      rw [answer, answer, read_unset_file_of_said hset hblank hsaid]
      simp [hsaid.not_silent]
  · rw [answer, answer, read_unset_of_ne hset hblank hbase hfile]
    simp [hbase, hfile]

/-- A template that leaves the base address blank gives a configuration without one. -/
theorem blank_base_matters :
    let e : Environment := ⟨[("UPLINK_ACCESS_TOKEN", .text "tok"), ("UPLINK_BASE_URL", .text "")]⟩
    e.get? "UPLINK_BASE_URL" = some (.text "") ∧ AllBlank "".toList ∧
      answer .empty (e.unset "UPLINK_BASE_URL") ≠ answer .empty e := by
  intro e
  have hset : e.get? "UPLINK_BASE_URL" = some (.text "") := rfl
  have hblank : AllBlank "".toList := by
    rw [String.toList_empty]
    exact allBlank_nil
  exact ⟨hset, hblank, (blank_matters_iff .empty hset hblank).2 (.inl ⟨rfl, _, rfl⟩)⟩

end Config

end HeatWatch
