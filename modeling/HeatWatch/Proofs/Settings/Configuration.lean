import HeatWatch.Credentials
import HeatWatch.Proofs.Decimal.Numerals
import HeatWatch.Proofs.Text.Trim
import Mathlib.Data.List.Forall2

/-!
# Configurations and the variables they come from

A variable says something if it is a text that is not blank. `Config.Follows` states what the variables and the
files make of a configuration, `Config.Valid` when they make one. Main statements:

* `Entries.read_eq_ok_iff`: how lists are read;
* `Config.read_eq_ok_iff`: the configuration that is read is the one that follows;
* `Config.exists_read_iff`: there is one if the variables are valid;
* `Config.read_valid`: both, and a token that was given is one to be sent.
-/

namespace HeatWatch

open Decimal Decimal.Whole Text

/-- Two steps give something if the first one does and then the second one. -/
theorem bind_eq_ok_iff {ε α β : Type} {x : Except ε α} {f : α → Except ε β} {b : β} :
    (x >>= f) = .ok b ↔ ∃ a, x = .ok a ∧ f a = .ok b := by
  cases x with
  | error r =>
    constructor
    · intro h
      cases h
    · rintro ⟨a, ha, -⟩
      cases ha
  | ok a =>
    constructor
    · intro h
      exact ⟨a, rfl, h⟩
    · rintro ⟨a', ha, h⟩
      cases ha
      exact h

/-- Two steps fail if the first one does, or gives something with which the second one does. -/
theorem bind_eq_error_iff {ε α β : Type} {x : Except ε α} {f : α → Except ε β} {r : ε} :
    (x >>= f) = .error r ↔ x = .error r ∨ ∃ a, x = .ok a ∧ f a = .error r := by
  cases x with
  | error r' =>
    constructor
    · intro h
      cases h
      exact .inl rfl
    · rintro (h | ⟨a, ha, -⟩)
      · cases h
        rfl
      · cases ha
  | ok a =>
    constructor
    · intro h
      exact .inr ⟨a, rfl, h⟩
    · rintro (h | ⟨a', ha, h⟩)
      · cases h
      · cases ha
        exact h

/-! ## Variables -/

namespace Environment

/-- The variable says something: it is a text that is not blank. White space around it does not count. -/
def Says (e : Environment) (name : String) (cs : List Char) : Prop :=
  ∃ s, e.get? name = some (.text s) ∧ trim s.toList = cs ∧ cs ≠ []

/-- The variable says nothing: it is not set, no text, or blank. -/
def Silent (e : Environment) (name : String) : Prop :=
  ∀ s, e.get? name = some (.text s) → AllBlank s.toList

/-- The text of the variable, as it is, or another one if it has none. -/
def Gives (e : Environment) (name other s : String) : Prop :=
  e.get? name = some (.text s) ∨ (∀ t, e.get? name ≠ some (.text t)) ∧ s = other

/-- What stands between the commas of a variable, without white space around it and without blanks. -/
def entries (e : Environment) (name : String) : List (List Char) :=
  match e.get? name with
  | some (.text s) => ((s.toList.splitOn ',').map trim).filter fun cs => cs ≠ []
  | _ => []

variable {e : Environment} {name other s : String} {cs cs' : List Char}

theorem Says.unique (h : e.Says name cs) (h' : e.Says name cs') : cs = cs' := by
  obtain ⟨s, hs, hcs, -⟩ := h
  obtain ⟨s', hs', hcs', -⟩ := h'
  cases hs.symm.trans hs'
  exact hcs.symm.trans hcs'

theorem Says.not_silent (h : e.Says name cs) : ¬ e.Silent name := by
  obtain ⟨s, hs, hcs, hne⟩ := h
  intro hsilent
  exact hne (hcs.symm.trans (trim_eq_nil_iff.2 (hsilent s hs)))

theorem text?_eq_some_iff : e.text? name = some s ↔ e.get? name = some (.text s) := by
  unfold text?
  constructor
  · intro h
    split at h
    case h_1 t ht =>
      cases h
      exact ht
    case h_2 => cases h
  · intro h
    rw [h]

theorem text?_eq_none_iff : e.text? name = none ↔ ∀ s, e.get? name ≠ some (.text s) := by
  rw [Option.eq_none_iff_forall_ne_some]
  simp only [ne_eq, text?_eq_some_iff]

theorem text?_getD_eq_iff : (e.text? name).getD other = s ↔ e.Gives name other s := by
  unfold Gives
  cases htext : e.text? name with
  | none =>
    have hnone := text?_eq_none_iff.1 htext
    constructor
    · intro h
      exact .inr ⟨hnone, h.symm⟩
    · rintro (h | ⟨-, h⟩)
      · exact absurd h (hnone s)
      · exact h.symm
  | some t =>
    have hsome := text?_eq_some_iff.1 htext
    rw [hsome]
    constructor
    · intro h
      exact .inl (congrArg _ (congrArg _ h))
    · rintro (h | ⟨h, -⟩)
      · cases h
        rfl
      · exact absurd rfl (h t)

end Environment

/-! ## Lists -/

namespace Entries

theorem parts_eq_splitOn (cs : List Char) : parts cs = cs.splitOn ',' := by
  induction cs with
  | nil => rfl
  | cons c cs ih =>
    rw [parts, List.splitOn_cons_eq_if_modifyHead, ih]
    by_cases hc : c = ','
    · rw [if_pos hc, if_pos (beq_iff_eq.2 hc)]
    · rw [if_neg hc, if_neg (mt beq_iff_eq.1 hc)]
      cases hparts : cs.splitOn ',' with
      | nil => exact absurd hparts (List.splitOn_ne_nil _ _)
      | cons p ps => rfl

theorem ofText_eq (raw : String) :
    ofText raw = ((raw.toList.splitOn ',').map trim).filter fun cs => cs ≠ [] := by
  rw [ofText, parts_eq_splitOn]
  refine List.filter_congr ?_
  intro cs _
  cases cs <;> rfl

theorem ofText_getD (e : Environment) (name : String) :
    ofText ((e.text? name).getD "") = e.entries name := by
  unfold Environment.text? Environment.entries
  rcases e.get? name with _ | s | bytes
  · rfl
  · exact ofText_eq s
  · rfl

/-- A list is read if each of its entries is, and keeps their order. -/
theorem read_eq_ok_iff {α : Type} {entry : List Char → Option α} {raw : String} {as : List α} :
    read entry raw = .ok as ↔ List.Forall₂ (fun cs a => entry cs = some a) (ofText raw) as := by
  unfold read
  generalize ofText raw = ps
  induction ps generalizing as with
  | nil =>
    rw [List.forall₂_nil_left_iff]
    constructor
    · intro h
      cases h
      rfl
    · rintro rfl
      rfl
  | cons p ps ih =>
    rw [List.mapM_cons, bind_eq_ok_iff, List.forall₂_cons_left_iff]
    constructor
    · rintro ⟨a, hp, h⟩
      obtain ⟨as', hps, h⟩ := bind_eq_ok_iff.1 h
      cases h
      refine ⟨a, as', ?_, ih.1 hps, rfl⟩
      split at hp
      case h_1 b hb =>
        cases hp
        exact hb
      case h_2 => cases hp
    · rintro ⟨a, as', hp, hps, rfl⟩
      refine ⟨a, ?_, bind_eq_ok_iff.2 ⟨as', ih.2 hps, rfl⟩⟩
      rw [hp]

end Entries

/-! ## Settings -/

namespace Config

variable {e : Environment} {name : String} {cs : List Char}

theorem setting?_eq_some_iff : setting? e name = some cs ↔ e.Says name cs := by
  unfold setting? Environment.given? Environment.Says
  rw [Option.map_eq_some_iff]
  constructor
  · rintro ⟨s, hs, rfl⟩
    obtain ⟨htext, hsaid⟩ := Option.filter_eq_some_iff.1 hs
    refine ⟨s, Environment.text?_eq_some_iff.1 htext, rfl, ?_⟩
    simpa using hsaid
  · rintro ⟨s, htext, rfl, hne⟩
    refine ⟨s, Option.filter_eq_some_iff.2 ⟨Environment.text?_eq_some_iff.2 htext, ?_⟩, rfl⟩
    simpa using hne

theorem setting?_eq_none_iff : setting? e name = none ↔ e.Silent name := by
  unfold setting? Environment.given? Environment.Silent
  rw [Option.map_eq_none_iff, Option.filter_eq_none_iff]
  simp only [Environment.text?_eq_some_iff, ← trim_eq_nil_iff]
  simp

/-- The number of a setting: what its variable says, or the default if it says nothing. -/
inductive Number (e : Environment) (k : Kind) (name : String) (default : Int) : Int → Prop
  | silent (h : e.Silent name) : Number e k name default default
  | written {m : Numeral} (h : e.Says name m.text) (hm : k.Takes m) : Number e k name default m.value

variable {k : Kind} {n default : Int}

theorem number_of_silent (h : e.Silent name) : Number e k name default n ↔ n = default := by
  constructor
  · rintro (_ | ⟨hsaid, -⟩)
    · rfl
    · exact absurd h hsaid.not_silent
  · rintro rfl
    exact .silent h

theorem number_of_said (h : e.Says name cs) : Number e k name default n ↔ read? k cs = some n := by
  rw [read?_eq_some_iff]
  constructor
  · rintro (hsilent | ⟨hm, htakes⟩)
    · exact absurd hsilent h.not_silent
    · exact ⟨_, hm.unique h, rfl, htakes⟩
  · rintro ⟨m, rfl, rfl, htakes⟩
    exact .written h htakes

/-- A number is zero by what its variable says, if the default is not. -/
theorem Number.said_zero (h : Number e k name default n) (hdefault : default ≠ 0) (hn : n = 0) :
    ∃ m : Numeral, e.Says name m.text ∧ m.value = 0 := by
  rcases h with _ | ⟨hsaid, -⟩
  · exact absurd hn hdefault
  · exact ⟨_, hsaid, hn⟩

theorem days_eq_ok_iff : days e name default = .ok n ↔ Number e .i64 name default n := by
  unfold days
  cases hsetting : setting? e name with
  | none =>
    rw [number_of_silent (setting?_eq_none_iff.1 hsetting)]
    dsimp only
    rw [Except.ok.injEq, eq_comm]
  | some cs =>
    rw [number_of_said (setting?_eq_some_iff.1 hsetting)]
    dsimp only
    cases read? Kind.i64 cs with
    | none => simp
    | some v => simp

theorem seconds_eq_ok_iff {absent n : Nat} :
    seconds e name absent = .ok n ↔ Number e .u64 name absent n := by
  unfold seconds
  cases hsetting : setting? e name with
  | none =>
    rw [number_of_silent (setting?_eq_none_iff.1 hsetting), Nat.cast_inj]
    dsimp only
    rw [Except.ok.injEq, eq_comm]
  | some cs =>
    rw [number_of_said (setting?_eq_some_iff.1 hsetting)]
    dsimp only
    cases hread : read? Kind.u64 cs with
    | none => simp
    | some v =>
      have hv : 0 ≤ v := by
        obtain ⟨m, -, rfl, hholds, -⟩ := read?_eq_some_iff.1 hread
        exact hholds.1
      rw [Except.ok.injEq, Option.some.injEq]
      omega

/-- The text is a numeral for the word. -/
def Writes (cs : List Char) (n : Int64) : Prop := ∃ m : Numeral, m.text = cs ∧ m.value = n.toInt

/-- The numbers that a variable lists, in order. -/
def Listed (e : Environment) (name : String) (ns : List Int64) : Prop :=
  List.Forall₂ Writes (e.entries name) ns

theorem read?_word_iff {n : Int64} : read? Kind.i64 cs = some n.toInt ↔ Writes cs n := by
  rw [read?_eq_some_iff]
  constructor
  · rintro ⟨m, htext, hvalue, -⟩
    exact ⟨m, htext, hvalue⟩
  · rintro ⟨m, htext, hvalue⟩
    have hlow : Kind.i64.low ≤ n.toInt := n.le_toInt
    have hhigh : n.toInt ≤ Kind.i64.high := Int.le_sub_one_of_lt n.toInt_lt
    refine ⟨m, htext, hvalue, ?_, fun _ => by decide⟩
    rw [hvalue]
    exact ⟨hlow, hhigh⟩

/-- What is read as a word is one. -/
theorem toInt_ofInt_of_read? {v : Int} (h : read? Kind.i64 cs = some v) : (Int64.ofInt v).toInt = v := by
  obtain ⟨m, -, rfl, hholds, -⟩ := read?_eq_some_iff.1 h
  exact Int64.toInt_ofInt_of_le hholds.1 (Int.lt_of_le_sub_one hholds.2)

theorem numbers_eq_ok_iff {ns : List Int64} : numbers e name = .ok ns ↔ Listed e name ns := by
  unfold numbers Listed
  rw [← Entries.ofText_getD]
  constructor
  · intro h
    split at h
    case h_1 vs hvs =>
      cases h
      refine List.forall₂_map_right_iff.2 ((Entries.read_eq_ok_iff.1 hvs).imp ?_)
      intro cs v hv
      rw [← read?_word_iff, toInt_ofInt_of_read? hv]
      exact hv
    case h_2 => cases h
  · intro h
    -- the entries are read as numbers, which are words again
    have hread : Entries.read (read? Kind.i64) ((e.text? name).getD "") = .ok (ns.map Int64.toInt) := by
      refine Entries.read_eq_ok_iff.2 (List.forall₂_map_right_iff.2 (h.imp ?_))
      intro cs n hn
      exact read?_word_iff.2 hn
    have hwords : (ns.map Int64.toInt).map Int64.ofInt = ns :=
      Function.LeftInverse.list_map Int64.ofInt_toInt ns
    rw [hread]
    exact congrArg Except.ok hwords

/-! ## The token -/

/-- Where the token comes from: the variable, or else a file that is there. -/
inductive Source (files : Files) (e : Environment) : TokenSource → Prop
  | inline {cs : List Char} (h : e.Says "UPLINK_ACCESS_TOKEN" cs) :
      Source files e (.inline (String.ofList cs))
  | file {path : String} {bytes : List UInt8} (h : e.Silent "UPLINK_ACCESS_TOKEN")
      (hpath : e.Gives "UPLINK_TOKEN_FILE" "token.txt" path)
      (hfile : files.lookup path = .ok (.file bytes)) : Source files e (.file path)

theorem isFile_iff {files : Files} {path : String} :
    files.isFile path = true ↔ ∃ bytes, files.lookup path = .ok (.file bytes) := by
  unfold Files.isFile
  constructor
  · intro h
    split at h
    case h_1 bytes hbytes => exact ⟨bytes, hbytes⟩
    case h_2 => cases h
  · rintro ⟨bytes, hbytes⟩
    rw [hbytes]

theorem tokenSource_eq_ok_iff {files : Files} {t : TokenSource} :
    tokenSource files e = .ok t ↔ Source files e t := by
  have hpath : e.Gives "UPLINK_TOKEN_FILE" "token.txt" (tokenPath e) :=
    Environment.text?_getD_eq_iff.1 rfl
  unfold tokenSource
  cases hsetting : setting? e "UPLINK_ACCESS_TOKEN" with
  | some cs =>
    have hsaid := setting?_eq_some_iff.1 hsetting
    constructor
    · intro h
      cases h
      exact .inline hsaid
    · rintro (hsaid' | ⟨hsilent, -, -⟩)
      · rw [hsaid.unique hsaid']
      · exact absurd hsilent hsaid.not_silent
  | none =>
    have hsilent := setting?_eq_none_iff.1 hsetting
    dsimp only
    constructor
    · intro h
      split at h
      case isTrue hfile =>
        obtain ⟨bytes, hbytes⟩ := isFile_iff.1 hfile
        cases h
        exact .file hsilent hpath hbytes
      case isFalse => cases h
    · rintro (hsaid | ⟨-, hpath', hfile⟩)
      · exact absurd hsilent hsaid.not_silent
      · have hsame := Environment.text?_getD_eq_iff.2 hpath'
        rw [← hsame] at hfile ⊢
        exact if_pos (isFile_iff.2 ⟨_, hfile⟩)

/-! ## Configurations -/

/-- The settings besides the token and the base address are what the variables say, and the defaults where they
say nothing. -/
structure Measured (e : Environment) (c : Config) : Prop where
  softwareDays : Number e .i64 "SOFTWARE_CHECK_DAYS" 7 c.softwareDays
  requestInterval : Number e .u64 "REQUEST_INTERVAL_SECS" 5 c.requestInterval
  paced : c.requestInterval ≠ 0
  tracked : Listed e "TRACKED_PARAMETERS" (c.tracked.map ParameterId.val)
  systems : Listed e "SYSTEM_IDS" (c.systems.map SystemId.val)
  updateInterval : Number e .u64 "UPDATE_INTERVAL_SECS" 60 c.updateInterval
  requestTimeout : Number e .u64 "REQUEST_TIMEOUT_SECS" 5 c.requestTimeout

/-- The configuration is what the variables and the files say. -/
structure Follows (files : Files) (e : Environment) (c : Config) : Prop extends Measured e c where
  token : Source files e c.token
  base : e.Gives "UPLINK_BASE_URL" "https://api.nibeuplink.com/api/v1" c.base

/-- Reads what is left when the token and the base address are known. -/
def complete (e : Environment) (token : TokenSource) (base : String) : Except ConfigFault Config := do
  let softwareDays ← days e "SOFTWARE_CHECK_DAYS" 7
  let requestInterval ← seconds e "REQUEST_INTERVAL_SECS" 5
  if requestInterval = 0 then throw (.zeroInterval "REQUEST_INTERVAL_SECS")
  let tracked ← numbers e "TRACKED_PARAMETERS"
  let systems ← numbers e "SYSTEM_IDS"
  let updateInterval ← seconds e "UPDATE_INTERVAL_SECS" 60
  let requestTimeout ← seconds e "REQUEST_TIMEOUT_SECS" 5
  return { token, base, updateInterval, softwareDays, requestInterval, requestTimeout
           tracked := tracked.map ParameterId.mk, systems := systems.map SystemId.mk }

theorem read_eq_complete (files : Files) (e : Environment) : read files e =
    (tokenSource files e >>= fun token => complete e token ((e.text? "UPLINK_BASE_URL").getD defaultBase)) :=
  rfl

theorem vals_parameterIds (ns : List Int64) : (ns.map ParameterId.mk).map ParameterId.val = ns :=
  Function.LeftInverse.list_map (fun _ => rfl) ns

theorem vals_systemIds (ns : List Int64) : (ns.map SystemId.mk).map SystemId.val = ns :=
  Function.LeftInverse.list_map (fun _ => rfl) ns

theorem complete_eq_ok_iff {token : TokenSource} {base : String} {c : Config} :
    complete e token base = .ok c ↔ c.token = token ∧ c.base = base ∧ Measured e c := by
  -- the settings one after the other, as they are read
  constructor
  · intro h
    obtain ⟨softwareDays, hdays, h⟩ := bind_eq_ok_iff.1 h
    obtain ⟨requestInterval, hrequest, h⟩ := bind_eq_ok_iff.1 h
    split at h
    case isTrue => cases h
    case isFalse hpaced =>
      obtain ⟨tracked, htracked, h⟩ := bind_eq_ok_iff.1 h
      obtain ⟨systems, hsystems, h⟩ := bind_eq_ok_iff.1 h
      obtain ⟨updateInterval, hupdate, h⟩ := bind_eq_ok_iff.1 h
      obtain ⟨requestTimeout, htimeout, h⟩ := bind_eq_ok_iff.1 h
      cases h
      refine ⟨rfl, rfl, days_eq_ok_iff.1 hdays, seconds_eq_ok_iff.1 hrequest, hpaced, ?_, ?_,
        seconds_eq_ok_iff.1 hupdate, seconds_eq_ok_iff.1 htimeout⟩
      · rw [vals_parameterIds]
        exact numbers_eq_ok_iff.1 htracked
      · rw [vals_systemIds]
        exact numbers_eq_ok_iff.1 hsystems
  · rintro ⟨rfl, rfl, h⟩
    refine bind_eq_ok_iff.2 ⟨_, days_eq_ok_iff.2 h.softwareDays, ?_⟩
    refine bind_eq_ok_iff.2 ⟨_, seconds_eq_ok_iff.2 h.requestInterval, ?_⟩
    rw [if_neg h.paced]
    refine bind_eq_ok_iff.2 ⟨_, numbers_eq_ok_iff.2 h.tracked, ?_⟩
    refine bind_eq_ok_iff.2 ⟨_, numbers_eq_ok_iff.2 h.systems, ?_⟩
    refine bind_eq_ok_iff.2 ⟨_, seconds_eq_ok_iff.2 h.updateInterval, ?_⟩
    refine bind_eq_ok_iff.2 ⟨_, seconds_eq_ok_iff.2 h.requestTimeout, ?_⟩
    have htracked : (c.tracked.map ParameterId.val).map ParameterId.mk = c.tracked :=
      Function.LeftInverse.list_map (fun _ => rfl) c.tracked
    have hsystems : (c.systems.map SystemId.val).map SystemId.mk = c.systems :=
      Function.LeftInverse.list_map (fun _ => rfl) c.systems
    rw [htracked, hsystems]
    rfl

theorem read_eq_ok_iff {files : Files} {c : Config} : read files e = .ok c ↔ Follows files e c := by
  rw [read_eq_complete, bind_eq_ok_iff]
  constructor
  · rintro ⟨token, htoken, hcomplete⟩
    obtain ⟨rfl, hbase, hmeasured⟩ := complete_eq_ok_iff.1 hcomplete
    exact ⟨hmeasured, tokenSource_eq_ok_iff.1 htoken, Environment.text?_getD_eq_iff.1 hbase.symm⟩
  · rintro ⟨hmeasured, htoken, hbase⟩
    refine ⟨c.token, tokenSource_eq_ok_iff.2 htoken, complete_eq_ok_iff.2 ⟨rfl, ?_, hmeasured⟩⟩
    exact (Environment.text?_getD_eq_iff.2 hbase).symm

/-! ## Valid variables -/

/-- The text is a number of the kind, as it is read. -/
def Readable (k : Kind) (cs : List Char) : Prop := ∃ m : Numeral, m.text = cs ∧ k.Takes m

/-- The text stands for a number in the range of the kind. -/
def InRange (k : Kind) (cs : List Char) : Prop := ∃ m : Numeral, m.text = cs ∧ k.Holds m.value

/-- The variables and the files make a configuration, if `Accepted` are the texts of numbers. -/
structure Valid (Accepted : Kind → List Char → Prop) (files : Files) (e : Environment) : Prop where
  /-- There is a token, or a file that it can be in. -/
  token : (∃ cs, e.Says "UPLINK_ACCESS_TOKEN" cs) ∨
    ∃ path bytes, e.Gives "UPLINK_TOKEN_FILE" "token.txt" path ∧ files.lookup path = .ok (.file bytes)
  days : e.Silent "SOFTWARE_CHECK_DAYS" ∨ ∃ cs, e.Says "SOFTWARE_CHECK_DAYS" cs ∧ Accepted .i64 cs
  seconds : ∀ name ∈ ["UPDATE_INTERVAL_SECS", "REQUEST_INTERVAL_SECS", "REQUEST_TIMEOUT_SECS"],
    e.Silent name ∨ ∃ cs, e.Says name cs ∧ Accepted .u64 cs
  paced : ¬ ∃ m : Numeral, e.Says "REQUEST_INTERVAL_SECS" m.text ∧ m.value = 0
  lists : ∀ name ∈ ["TRACKED_PARAMETERS", "SYSTEM_IDS"], ∀ cs ∈ e.entries name, Accepted .i64 cs

theorem exists_number_iff (default : Int) : (∃ n, Number e k name default n) ↔
    e.Silent name ∨ ∃ cs, e.Says name cs ∧ Readable k cs := by
  constructor
  · rintro ⟨n, hsilent | ⟨hsaid, htakes⟩⟩
    · exact .inl hsilent
    · exact .inr ⟨_, hsaid, _, rfl, htakes⟩
  · rintro (hsilent | ⟨cs, hsaid, m, rfl, htakes⟩)
    · exact ⟨default, .silent hsilent⟩
    · exact ⟨m.value, .written hsaid htakes⟩

/-- A number of seconds is not negative. -/
theorem exists_seconds_iff (absent : Nat) : (∃ n : Nat, Number e .u64 name absent n) ↔
    e.Silent name ∨ ∃ cs, e.Says name cs ∧ Readable .u64 cs := by
  rw [← exists_number_iff absent]
  constructor
  · rintro ⟨n, hn⟩
    exact ⟨n, hn⟩
  · rintro ⟨v, hv⟩
    have hnonneg : 0 ≤ v := by
      rcases hv with _ | ⟨-, hholds, -⟩
      · exact Int.natCast_nonneg absent
      · exact hholds.1
    obtain ⟨n, rfl⟩ := Int.eq_ofNat_of_zero_le hnonneg
    exact ⟨n, hv⟩

theorem exists_writes_iff : (∃ n, Writes cs n) ↔ Readable .i64 cs := by
  constructor
  · rintro ⟨n, hn⟩
    obtain ⟨m, htext, -, htakes⟩ := read?_eq_some_iff.1 (read?_word_iff.2 hn)
    exact ⟨m, htext, htakes⟩
  · rintro ⟨m, htext, htakes⟩
    have hread : read? Kind.i64 cs = some m.value := read?_eq_some_iff.2 ⟨m, htext, rfl, htakes⟩
    refine ⟨Int64.ofInt m.value, read?_word_iff.1 ?_⟩
    rw [toInt_ofInt_of_read? hread]
    exact hread

theorem exists_listed_iff : (∃ ns, Listed e name ns) ↔ ∀ cs ∈ e.entries name, Readable .i64 cs := by
  unfold Listed
  generalize e.entries name = entries
  induction entries with
  | nil =>
    constructor
    · intro _ cs hcs
      cases hcs
    · intro _
      exact ⟨[], .nil⟩
  | cons cs entries ih =>
    rw [List.forall_mem_cons, ← ih, ← exists_writes_iff]
    constructor
    · rintro ⟨ns, hns⟩
      obtain ⟨n, ns', hn, hrest, -⟩ := List.forall₂_cons_left_iff.1 hns
      exact ⟨⟨n, hn⟩, ns', hrest⟩
    · rintro ⟨⟨n, hn⟩, ns, hns⟩
      exact ⟨n :: ns, .cons hn hns⟩

theorem exists_source_iff {files : Files} : (∃ t, Source files e t) ↔
    (∃ cs, e.Says "UPLINK_ACCESS_TOKEN" cs) ∨
      ∃ path bytes, e.Gives "UPLINK_TOKEN_FILE" "token.txt" path ∧ files.lookup path = .ok (.file bytes) := by
  constructor
  · rintro ⟨t, hsaid | ⟨-, hpath, hfile⟩⟩
    · exact .inl ⟨_, hsaid⟩
    · exact .inr ⟨_, _, hpath, hfile⟩
  · rintro (⟨cs, hsaid⟩ | ⟨path, bytes, hpath, hfile⟩)
    · exact ⟨_, .inline hsaid⟩
    · cases hsetting : setting? e "UPLINK_ACCESS_TOKEN" with
      | none => exact ⟨_, .file (setting?_eq_none_iff.1 hsetting) hpath hfile⟩
      | some cs => exact ⟨_, .inline (setting?_eq_some_iff.1 hsetting)⟩

/-- There is a configuration if the variables are valid, and else there is none. -/
theorem exists_read_iff {files : Files} : (∃ c, read files e = .ok c) ↔ Valid Readable files e := by
  constructor
  · rintro ⟨c, hc⟩
    have h := read_eq_ok_iff.1 hc
    refine ⟨exists_source_iff.1 ⟨_, h.token⟩, (exists_number_iff _).1 ⟨_, h.softwareDays⟩, ?_, ?_, ?_⟩
    · simp only [List.forall_mem_cons]
      exact ⟨(exists_number_iff _).1 ⟨_, h.updateInterval⟩, (exists_number_iff _).1 ⟨_, h.requestInterval⟩,
        (exists_number_iff _).1 ⟨_, h.requestTimeout⟩, nofun⟩
    · rintro ⟨m, hsaid, hzero⟩
      -- the interval is the number that is written, whichever way it was read
      obtain ⟨m', htext, hvalue, -⟩ := read?_eq_some_iff.1 ((number_of_said hsaid).1 h.requestInterval)
      have hsame : (c.requestInterval : Int) = 0 := by
        rw [← hvalue, value_unique htext, hzero]
      exact h.paced (Int.natCast_eq_zero.1 hsame)
    · simp only [List.forall_mem_cons]
      exact ⟨exists_listed_iff.1 ⟨_, h.tracked⟩, exists_listed_iff.1 ⟨_, h.systems⟩, nofun⟩
  · intro h
    have hseconds := h.seconds
    have hlists := h.lists
    simp only [List.forall_mem_cons] at hseconds hlists
    obtain ⟨hupdate, hrequest, htimeout, -⟩ := hseconds
    obtain ⟨htracked, hsystems, -⟩ := hlists
    obtain ⟨token, htoken⟩ := exists_source_iff.2 h.token
    obtain ⟨softwareDays, hdays⟩ := (exists_number_iff 7).2 h.days
    obtain ⟨requestInterval, hrequest⟩ := (exists_seconds_iff 5).2 hrequest
    obtain ⟨tracked, htracked⟩ := exists_listed_iff.2 htracked
    obtain ⟨systems, hsystems⟩ := exists_listed_iff.2 hsystems
    obtain ⟨updateInterval, hupdate⟩ := (exists_seconds_iff 60).2 hupdate
    obtain ⟨requestTimeout, htimeout⟩ := (exists_seconds_iff 5).2 htimeout
    have hpaced : requestInterval ≠ 0 := by
      intro hzero
      exact h.paced (hrequest.said_zero (by decide) (Int.natCast_eq_zero.2 hzero))
    let c : Config :=
      { token, base := (e.text? "UPLINK_BASE_URL").getD defaultBase, softwareDays, requestInterval
        tracked := tracked.map ParameterId.mk, systems := systems.map SystemId.mk
        updateInterval, requestTimeout }
    have hmeasured : Measured e c := by
      refine ⟨hdays, hrequest, hpaced, ?_, ?_, hupdate, htimeout⟩
      · rw [vals_parameterIds]
        exact htracked
      · rw [vals_systemIds]
        exact hsystems
    exact ⟨c, read_eq_ok_iff.2 ⟨hmeasured, htoken, Environment.text?_getD_eq_iff.1 rfl⟩⟩

/-! ## What is read -/

/-- A token that was given can be sent. -/
theorem Source.sendable {files : Files} {t : String} (h : Source files e (.inline t)) :
    ¬ AllBlank t.toList ∧ trim t.toList = t.toList ∧ StaticToken.fetch ⟨t⟩ = .ok t := by
  obtain ⟨⟨s, -, rfl, hne⟩⟩ := h
  rw [String.toList_ofList]
  obtain ⟨hstart, hend, -⟩ := trim_eq_iff.1 (rfl : trim s.toList = trim s.toList)
  have htrim : trim (trim s.toList) = trim s.toList := trim_of_bare hstart hend
  have hbare : ¬ AllBlank (trim s.toList) := by
    rw [← trim_eq_nil_iff, htrim]
    exact hne
  refine ⟨hbare, htrim, ?_⟩
  unfold StaticToken.fetch
  rw [String.toList_ofList, htrim, if_neg (mt List.isEmpty_iff.1 hne)]

/-- A configuration is read exactly when the variables are valid. It holds the numbers that are written, or the
defaults, and a token that was given is one to be sent. -/
theorem read_valid (files : Files) (e : Environment) :
    ((∃ c, read files e = .ok c) ↔ Valid Readable files e) ∧
      ∀ c, read files e = .ok c → Follows files e c ∧ ∀ t, c.token = .inline t →
        ¬ AllBlank t.toList ∧ trim t.toList = t.toList ∧ StaticToken.fetch ⟨t⟩ = .ok t := by
  refine ⟨exists_read_iff, ?_⟩
  intro c hc
  have hfollows := read_eq_ok_iff.1 hc
  refine ⟨hfollows, ?_⟩
  intro t ht
  have hsource := hfollows.token
  rw [ht] at hsource
  exact hsource.sendable

/-- It is not enough that the texts stand for numbers in range: a zero with a minus sign is no number of seconds. -/
theorem signed_zero_refused : ¬ ∀ files e, (∃ c, read files e = .ok c) ↔ Valid InRange files e := by
  intro h
  let e : Environment := ⟨[("UPLINK_ACCESS_TOKEN", .text "tok"), ("UPDATE_INTERVAL_SECS", .text "-0")]⟩
  have hsilent : ∀ name, e.get? name = none → e.Silent name := by
    intro name hname s hs
    rw [hname] at hs
    cases hs
  have hvalid : Valid InRange .empty e := by
    constructor
    case token => exact .inl ⟨_, "tok", rfl, rfl, by decide⟩
    case days => exact .inl (hsilent _ rfl)
    case seconds =>
      simp only [List.forall_mem_cons]
      refine ⟨.inr ⟨['-', '0'], ⟨"-0", rfl, rfl, by decide⟩, ⟨.minus, [0], by decide⟩, rfl, ?_⟩,
        .inl (hsilent _ rfl), .inl (hsilent _ rfl), nofun⟩
      decide
    case paced =>
      rintro ⟨m, hsaid, -⟩
      exact hsaid.not_silent (hsilent _ rfl)
    case lists =>
      simp only [List.forall_mem_cons]
      exact ⟨nofun, nofun, nofun⟩
  obtain ⟨c, hc⟩ := (h .empty e).2 hvalid
  have hfault : read .empty e = .error (.notSeconds "UPDATE_INTERVAL_SECS") := by rfl
  rw [hfault] at hc
  cases hc

end Config

end HeatWatch
