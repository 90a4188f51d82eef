import HeatWatch.Credentials
import HeatWatch.Proofs.Engine.Exchanges

/-!
# Tokens after a rejection

A rejection makes the credentials forget the token that they keep, and nothing else. What they hand out
next is what their source holds then, and that may well be the token that was rejected. Main statements:

* `fetch_after_rejection`: which token comes after a rejection;
* `rejected_token_again_iff`: so it is after every history, and for the two calls of an exchange.
-/

namespace HeatWatch

/-- The source holds the token at the moment: a fixed one does for ever, a file does with white space
around the token or without. -/
def TokenSource.Holds (files : Files) (token : String) : TokenSource → Prop
  | .inline t => t = token
  | .file path => ∃ raw, files.readText path = .ok raw ∧ String.ofList (Text.trim raw.toList) = token

/-- The token is one that the source could hand out. -/
def TokenSource.Usable (token : String) : TokenSource → Prop
  | .inline t => t = token ∧ (Text.trim token.toList).isEmpty = false
  | .file _ => token ≠ ""

namespace Credentials

/-- A use that is made of credentials. The files may be others each time. -/
inductive Use where
  | fetch (files : Files)
  | invalidate

/-- What a use leaves of the credentials. -/
def use (c : Credentials) : Use → Credentials
  | .fetch files => (c.fetch files).2.1
  | .invalidate => c.invalidate

/-- What several uses leave of them. -/
def after (c : Credentials) (us : List Use) : Credentials := us.foldl use c

/-- The token that a use brings. -/
def token? (c : Credentials) : Use → Option String
  | .fetch files => (c.fetch files).1.toOption
  | .invalidate => none

/-- The tokens that were handed out in several uses, in order. -/
def handedOut (c : Credentials) : List Use → List String
  | [] => []
  | u :: us => (c.token? u).toList ++ (c.use u).handedOut us

/-- The credentials come from a source, and what they keep could come from it too. -/
def From (source : TokenSource) : Credentials → Prop
  | .fixed t => source = .inline t.token
  | .file t => source = .file t.path ∧ ∀ token ∈ t.cached, token ≠ ""

variable {source : TokenSource} {c : Credentials} {token : String}

theorem from_ofSource (source : TokenSource) : From source (ofSource source) := by
  cases source with
  | inline => rfl
  | file path => exact ⟨rfl, nofun⟩

theorem From.invalidate (h : From source c) : From source c.invalidate := by
  cases c with
  | fixed t => exact h
  | file t => exact ⟨h.1, nofun⟩

/-- A token file hands out the token that it keeps, or the one that it reads, and keeps that. -/
theorem fetch_file_cases (t : TokenFile) (files : Files) :
    (∃ token ∈ t.cached, t.fetch files = (.ok token, t, [])) ∨
    (∃ f, t.fetch files = (.error f, t, [])) ∨
    (∃ token logs, token ≠ "" ∧ t.fetch files = (.ok token, { t with cached := some token }, logs)) := by
  unfold TokenFile.fetch
  split
  case h_1 token hcached => exact .inl ⟨token, hcached, rfl⟩
  case h_2 =>
    split
    case h_1 => exact .inr (.inl ⟨_, rfl⟩)
    case h_2 =>
      dsimp only
      split
      case isTrue => exact .inr (.inl ⟨_, rfl⟩)
      case isFalse hne => exact .inr (.inr ⟨_, _, hne, rfl⟩)

theorem From.fetch (h : From source c) (files : Files) : From source (c.fetch files).2.1 := by
  cases c with
  | fixed t => exact h
  | file t =>
    show From source (.file (t.fetch files).2.1)
    obtain ⟨token, hcached, heq⟩ | ⟨f, heq⟩ | ⟨token, logs, hne, heq⟩ := fetch_file_cases t files
    · rw [heq]
      exact h
    · rw [heq]
      exact h
    · rw [heq]
      refine ⟨h.1, fun token' htoken' => ?_⟩
      cases htoken'
      exact hne

theorem From.use (h : From source c) (u : Use) : From source (c.use u) := by
  cases u with
  | fetch files => exact h.fetch files
  | invalidate => exact h.invalidate

theorem From.after (h : From source c) (us : List Use) : From source (c.after us) := by
  induction us generalizing c with
  | nil => exact h
  | cons u us ih => exact ih (h.use u)

/-- A token that is handed out is one that the source could hand out. -/
theorem From.usable (h : From source c) {files : Files} (htoken : (c.fetch files).1 = .ok token) :
    source.Usable token := by
  cases c with
  | fixed t =>
    have hfixed : t.fetch = .ok token := htoken
    unfold StaticToken.fetch at hfixed
    split at hfixed
    case isTrue => cases hfixed
    case isFalse hne =>
      cases hfixed
      rw [show source = .inline t.token from h]
      exact ⟨rfl, Bool.eq_false_iff.2 hne⟩
  | file t =>
    have hfile : (t.fetch files).1 = .ok token := htoken
    rw [h.1]
    show token ≠ ""
    obtain ⟨token', hcached, heq⟩ | ⟨f, heq⟩ | ⟨token', logs, hne, heq⟩ := fetch_file_cases t files
    · rw [heq] at hfile
      cases hfile
      exact h.2 token hcached
    · rw [heq] at hfile
      cases hfile
    · rw [heq] at hfile
      cases hfile
      exact hne

theorem From.usable_of_handedOut (h : From source c) {us : List Use} (hmem : token ∈ c.handedOut us) :
    source.Usable token := by
  induction us generalizing c with
  | nil => cases hmem
  | cons u us ih =>
    rcases List.mem_append.1 hmem with hnow | hlater
    · cases u with
      | invalidate => cases hnow
      | fetch files =>
        have hsome : (c.fetch files).1.toOption = some token := Option.mem_toList.1 hnow
        cases hfetch : (c.fetch files).1 with
        | ok token' =>
          rw [hfetch] at hsome
          cases hsome
          exact h.usable hfetch
        | error f =>
          rw [hfetch] at hsome
          cases hsome
    · exact ih (h.use u) hlater

/-- After a rejection a token is handed out exactly if the source holds it. -/
theorem fetch_after_rejection (h : From source c) (husable : source.Usable token) (files : Files) :
    (c.invalidate.fetch files).1 = .ok token ↔ source.Holds files token := by
  cases c with
  | fixed t =>
    rw [show source = .inline t.token from h] at husable ⊢
    obtain ⟨rfl, hne⟩ := husable
    exact iff_of_true (if_neg (Bool.eq_false_iff.1 hne)) rfl
  | file t =>
    rw [h.1] at husable ⊢
    have hne : token ≠ "" := husable
    show ((TokenFile.invalidate t).fetch files).1 = .ok token ↔
      ∃ raw, files.readText t.path = .ok raw ∧ String.ofList (Text.trim raw.toList) = token
    unfold TokenFile.fetch TokenFile.invalidate
    cases hread : files.readText t.path with
    | error f => simp
    | ok raw =>
      by_cases hempty : String.ofList (Text.trim raw.toList) = ""
      · simp [hempty, hne.symm]
      · simp [hempty]

end Credentials

/-! ## Scripts -/

/-- The next two tokens of a script are those of the credentials, with a rejection in between. -/
structure Script.Draws (s : Script) (c : Credentials) (files files' : Files) : Prop where
  first : s.fetch.1 = (c.fetch files).1
  second : s.fetch.2.fetch.1 = ((c.fetch files).2.1.invalidate.fetch files').1

/-- The next token depends on nothing but the tokens and how many there were. -/
theorem Script.fetch_congr {s s' : Script} (htokens : s'.tokens = s.tokens)
    (hfetched : s'.fetched = s.fetched) : s'.fetch.1 = s.fetch.1 := by
  unfold Script.fetch
  rw [htokens, hfetched]
  cases s.tokens <;> rfl

theorem Script.fetch_reply (s : Script) (url : String) : (s.reply url).2.fetch.1 = s.fetch.1 := by
  unfold Script.reply
  split
  · rfl
  · exact Script.fetch_congr rfl rfl
  · exact Script.fetch_congr rfl rfl

/-- Calls for one request are the same exactly if their tokens are. -/
theorem Service.call_inj {v : Service} {r : Request} {token token' : String} :
    v.call r token = v.call r token' ↔ token = token' := by
  refine ⟨fun h => ?_, congrArg (v.call r)⟩
  have hheaders := congrArg (fun c : Call => c.headers.lookup "Authorization") h
  have hbearer : some ("Bearer " ++ token) = some ("Bearer " ++ token') := hheaders
  exact String.append_right_inj _ |>.1 (Option.some.inj hbearer)

/-- An exchange with two calls has taken the last of its courses, with the tokens that the script gives
next. -/
theorem Service.Exchanges.twice_of_calls {v : Service} {r : Request} {ds : List Dealing}
    {x : Except RequestError String} {call call' : Call} {s s' : Script} (h : v.Exchanges r ds x)
    (hserves : s.Serves ds s') (hcalls : ds.filterMap Dealing.call? = [call, call']) :
    ∃ token token', s.fetch.1 = .ok token ∧ s.fetch.2.fetch.1 = .ok token' ∧
      call = v.call r token ∧ call' = v.call r token' := by
  cases h with
  | refused | once | unrenewed => cases hcalls
  | @twice token token' reply reply' =>
    cases hcalls
    refine ⟨token, token', ?_, ?_, rfl, v.call_bearing r token token'⟩
    · cases hserves with
      | token hfirst _ => exact hfirst
    · cases hserves with
      | token _ h =>
        cases h with
        | call _ h =>
          cases h with
          | reject h =>
            cases h with
            | token hsecond _ =>
              rw [← hsecond, ← Script.fetch_reply s.fetch.2 (v.call r token).url]
              exact Script.fetch_congr rfl rfl

namespace Credentials

open Engine

/-- A token that was rejected is handed out again exactly if the source still holds it. So it is after
every history of uses, with any files at each, for the token that was handed out last; and so it is in
an exchange that makes two calls. A fixed token is always used again; a token of a file is used again if
the file was not changed, or only in the white space around it. -/
theorem rejected_token_again_iff (source : TokenSource) (us : List Use) :
    let c := (ofSource source).after us
    (∀ token, ((ofSource source).handedOut us).getLast? = some token → ∀ files,
      (c.invalidate.fetch files).1 = .ok token ↔ source.Holds files token) ∧
    ∀ settings service observer (script : Script) r files files' token call call',
      script.Draws c files files' → script.fetch.1 = .ok token →
      ((start settings service observer script).exchangeEach [r]).callsMade = [call, call'] →
      call = service.call r token ∧ (call' = call ↔ source.Holds files' token) := by
  intro c
  have hc : From source c := (from_ofSource source).after us
  constructor
  · intro token hlast files
    have hmem : token ∈ (ofSource source).handedOut us := List.mem_of_getLast? hlast
    exact fetch_after_rejection hc ((from_ofSource source).usable_of_handedOut hmem) files
  · intro settings service observer script r files files' token call call' hdraws htoken hcalls
    have hrest : (start settings service observer script).AtRest := ⟨rfl, rfl, rfl⟩
    obtain ⟨⟨ds, x⟩, hcourse, hexchanged⟩ := exchangeEach_single hrest r
    have hserves : script.Serves ds _ := List.flatMap_singleton _ _ ▸ hexchanged.script
    have hmade : [call, call'] = ds.filterMap Dealing.call? := by
      rw [← hcalls, hexchanged.calls, List.flatMap_singleton]
      rfl
    obtain ⟨first, second, hfirst, hsecond, rfl, rfl⟩ := hcourse.twice_of_calls hserves hmade.symm
    obtain rfl : first = token := Except.ok.inj (hfirst.symm.trans htoken)
    refine ⟨rfl, ?_⟩
    rw [hdraws.first] at hfirst
    rw [hdraws.second] at hsecond
    calc service.call r second = service.call r first
      _ ↔ second = first := Service.call_inj
      _ ↔ ((c.fetch files).2.1.invalidate.fetch files').1 = .ok first := by
        rw [hsecond, Except.ok.injEq]
      _ ↔ source.Holds files' first :=
        fetch_after_rejection (hc.fetch files) (hc.usable hfirst) files'

theorem fetch_of_readText {path raw : String} {files : Files} (hread : files.readText path = .ok raw)
    (htoken : String.ofList (Text.trim raw.toList) = token) (hne : token ≠ "") :
    (ofSource (.file path)).fetch files = (.ok token, .file ⟨path, some token⟩,
      [.info ("Loaded access token from " ++ path)]) := by
  have hfile : (TokenFile.ofPath path).fetch files = (.ok token, ⟨path, some token⟩,
      [.info ("Loaded access token from " ++ path)]) := by
    unfold TokenFile.fetch TokenFile.ofPath
    simp only [hread, htoken, if_neg hne]
  show (Credentials.file (.ofPath path)).fetch files = _
  unfold Credentials.fetch
  simp only [hfile]

/-- A path of one name. -/
theorem names_of_name : Files.names "t" = ["t"] := by
  have hsplit : "t".splitOn "/" = ["t"] := by
    unfold String.splitOn
    rw [if_neg (by decide), String.splitOnAux, String.splitOnAux]
    decide +kernel
  unfold Files.names
  rw [hsplit]
  decide +kernel

/-- The file is written anew between the two calls, with the same token and other white space. The second
call has the token that was rejected. -/
theorem rejected_token_again :
    let files : Files := ⟨["work"], [(["work", "t"], .file [97, 98, 99, 10])]⟩
    let files' : Files := ⟨["work"], [(["work", "t"], .file [32, 97, 98, 99])]⟩
    let c := ofSource (.file "t")
    let service : Service := ⟨"http://localhost", 1000⟩
    let script : Script := ⟨[some ⟨0, .ok ⟨401, "expired"⟩⟩], [], [.ok "abc", .ok "abc"], 0, 0⟩
    let call := service.call .listSystems "abc"
    (c.handedOut [.fetch files]).getLast? = some "abc" ∧
      ((c.after [.fetch files]).invalidate.fetch files').1 = .ok "abc" ∧
      script.Draws c files files' ∧
      ((start .default service none script).exchangeEach [.listSystems]).callsMade = [call, call] ∧
      TokenSource.Holds files' "abc" (.file "t") := by
  intro files files' c service script call
  have hread : files.readText "t" = .ok "abc\n" := by
    unfold Files.readText Files.lookup
    rw [names_of_name]
    decide +kernel
  have hread' : files'.readText "t" = .ok " abc" := by
    unfold Files.readText Files.lookup
    rw [names_of_name]
    decide +kernel
  have hfetch : c.fetch files = (.ok "abc", _, _) :=
    fetch_of_readText hread (by decide +kernel) (by decide)
  have hfetch' : c.fetch files' = (.ok "abc", _, _) :=
    fetch_of_readText hread' (by decide +kernel) (by decide)
  have hlast : (c.handedOut [.fetch files]).getLast? = some "abc" := by
    show ((c.fetch files).1.toOption.toList ++ []).getLast? = _
    rw [hfetch]
    rfl
  have hafter : (c.fetch files).2.1.invalidate = c := by
    rw [hfetch]
    rfl
  have hdraws : script.Draws c files files' := by
    refine ⟨?_, ?_⟩
    · rw [hfetch]
      rfl
    · rw [hafter, hfetch']
      rfl
  have hcalls : ((start .default service none script).exchangeEach [.listSystems]).callsMade =
      [call, call] := by decide +kernel
  have hholds : TokenSource.Holds files' "abc" (.file "t") :=
    ((rejected_token_again_iff (.file "t") []).2 .default service none script .listSystems files files'
      "abc" call call hdraws rfl hcalls).2.1 rfl
  have hagain : ((c.after [.fetch files]).invalidate.fetch files').1 = .ok "abc" :=
    ((rejected_token_again_iff (.file "t") [.fetch files]).1 "abc" hlast files').2 hholds
  exact ⟨hlast, hagain, hdraws, hcalls, hholds⟩

end Credentials

end HeatWatch
