import LinkedStore.Configuration
import LinkedStore.Proofs.Fallible
import LinkedStore.Proofs.Json.RoundTrip
import LinkedStore.Proofs.Text.Cut

/-!
# A configuration is read back

A configuration that has been read is written as a record of plain values, which name no variable.
So what is read from the record does not depend on the environment: it is the same configuration,
with one exception.  A base has to be there before the slashes at its end are taken off, and not
behind that.  A base of slashes alone is therefore accepted, nothing is left of it, and it is
refused when it is read back.

## Main definitions

* `Configuration.Settled` : a configuration as reading leaves one.
* `Configuration.reread` : what a configuration is read back as.
* `Configuration.ReadsBack` : what is known of a configuration that has been read.

## Main statements

* `Configuration.settled_of_ofJson` : reading leaves a settled configuration.
* `Configuration.Settled.ofJson_toJson`, `Configuration.Settled.ofText_render_toJson` : what a
  settled configuration is read back as.
* `Configuration.readsBack_of_ofJson` : what is known of every configuration that is read.
-/

namespace LinkedStore.Configuration

open Json (ofMembers_of_pairwise)

variable {env : Environment} {json : Json} {c : Configuration} {n : Nat} {text base : String}

/-! ### Entries -/

/-- An entry gives a value just if it is missing, or has a text that can be read. -/
theorem entryOr_eq_ok_iff {α : Type} {field : String} {read : String → Except Error α}
    {absent value : α} :
    entryOr env json field read absent = .ok value ↔
      entry env json field = .ok none ∧ absent = value ∨
        ∃ text, entry env json field = .ok (some text) ∧ read text = .ok value := by
  rw [entryOr, bind_eq_ok_iff]
  constructor
  · rintro ⟨text? | text, hentry, hvalue⟩
    · exact .inl ⟨hentry, pure_eq_ok_iff.1 hvalue⟩
    · exact .inr ⟨_, hentry, hvalue⟩
  · rintro (⟨hentry, rfl⟩ | ⟨text, hentry, hvalue⟩)
    · exact ⟨none, hentry, rfl⟩
    · exact ⟨some text, hentry, hvalue⟩

theorem baseOf_eq_ok_iff : baseOf text = .ok base ↔ text ≠ "" ∧ trimmedBase text = base := by
  rw [baseOf]
  split <;> simp [*]

/-- Digits are read as the number that they are written for. -/
theorem number?_toString (hn : n < Word.limit) : number? (toString n) = some n := by
  have htext : (toString n).toList = Nat.toDigits 10 n := by simp
  have hsign : Text.after? ['+'] (Nat.toDigits 10 n) = none := by
    rw [Option.eq_none_iff_forall_ne_some]
    intro rest hrest
    have hplus : '+' ∈ Nat.toDigits 10 n := Text.after?_eq_some_iff.1 hrest ▸ List.mem_cons_self
    exact absurd (Json.Reader.isDigit_of_mem_toDigits hplus) (by decide)
  have hvalue : (Nat.toDigits 10 n).foldl (fun n c => 10 * n + (c.toNat - '0'.toNat)) 0 = n :=
    Nat.ofDigitChars_ten_toDigits
  rw [number?, htext, hsign, Option.getD_none, if_pos, hvalue, if_pos hn]
  exact ⟨Nat.toDigits_ne_nil,
    List.all_eq_true.2 fun c hc => Json.Reader.isDigit_of_mem_toDigits hc⟩

/-- A number that is read fits into a word. -/
theorem lt_of_number?_eq_some (h : number? text = some n) : n < Word.limit := by
  rw [number?] at h
  split at h
  · dsimp only at h
    split at h
    · rename_i hlt
      exact Option.some.inj h ▸ hlt
    · exact nomatch h
  · exact nomatch h

theorem timeoutOf_eq_ok_iff : timeoutOf text = .ok n ↔ number? text = some n := by
  rw [timeoutOf]
  split <;> simp [*]

theorem ofName_name (a : DigestAlgorithm) : DigestAlgorithm.ofName a.name = .ok a := by
  cases a <;> rfl

/-! ### Settled configurations -/

/-- A configuration as reading leaves one: no slash ends the base, and the timeout fits into a
word. -/
structure Settled (c : Configuration) : Prop where
  base : ∀ front, c.base.toList ≠ front ++ ['/']
  timeout : c.timeout < Word.limit

/-- What a settled configuration is read back as: itself, unless its base is empty. -/
def reread (c : Configuration) : Except Error Configuration :=
  if c.base = "" then .error (.config .emptyBase) else .ok c

/-- The entries that a configuration has been read from. -/
theorem exists_of_ofJson (h : ofJson env json = .ok c) :
    entryOr env json "baseUrl" baseOf standard.base = .ok c.base ∧
      entryOr env json "transactionTimeoutSecs" timeoutOf standard.timeout = .ok c.timeout := by
  cases json with
  | object members =>
      simp only [ofJson, bind_eq_ok_iff, pure_eq_ok_iff] at h
      obtain ⟨base, hbase, workspace, -, algorithm, -, timeout, htimeout, rfl⟩ := h
      exact ⟨hbase, htimeout⟩
  | _ => exact nomatch h

/-- Reading leaves a settled configuration. -/
theorem settled_of_ofJson (h : ofJson env json = .ok c) : c.Settled := by
  obtain ⟨hbase, htimeout⟩ := exists_of_ofJson h
  constructor
  · rcases entryOr_eq_ok_iff.1 hbase with ⟨-, hstandard⟩ | ⟨text, -, hread⟩
    · intro front hend
      rw [← hstandard] at hend
      have hlast := congrArg List.getLast? hend
      rw [List.getLast?_concat] at hlast
      exact absurd hlast (by decide)
    · intro front
      rw [← (baseOf_eq_ok_iff.1 hread).2, trimmedBase, String.toList_ofList]
      exact Text.trimEnd_ne_append '/' text.toList front
  · rcases entryOr_eq_ok_iff.1 htimeout with ⟨-, hstandard⟩ | ⟨text, -, hread⟩
    · rw [← hstandard]
      decide
    · exact lt_of_number?_eq_some (timeoutOf_eq_ok_iff.1 hread)

theorem Settled.trimmedBase_eq (hc : c.Settled) : trimmedBase c.base = c.base := by
  rw [trimmedBase, Text.trimEnd_eq_self hc.base, String.ofList_toList]

/-- The members of the record of a configuration. -/
def members (c : Configuration) : List (String × Json) :=
  [("baseUrl", .string c.base), ("defaultWorkspace", .string c.workspace),
    ("digestAlgorithm", .string c.algorithm.name),
    ("transactionTimeoutSecs", .number (.whole c.timeout))]

theorem pairwise_members (c : Configuration) : c.members.Pairwise (·.1 < ·.1) := by
  have hnames :
      ["baseUrl", "defaultWorkspace", "digestAlgorithm", "transactionTimeoutSecs"].Pairwise
        (· < ·) := by decide
  exact (List.pairwise_map (f := Prod.fst) (l := c.members)).1 hnames

/-- The record of a configuration has its members in order. -/
theorem toJson_eq (c : Configuration) : c.toJson = .object c.members :=
  ofMembers_of_pairwise c.pairwise_members

/-- **A settled configuration is read back from its record**, whatever the environment holds,
unless its base is empty. -/
theorem Settled.ofJson_toJson (hc : c.Settled) (env : Environment) :
    ofJson env c.toJson = c.reread := by
  have hentries : ofJson env c.toJson = (do
      let base ← baseOf c.base
      let algorithm ← DigestAlgorithm.ofName c.algorithm.name
      let timeout ← timeoutOf (toString c.timeout)
      pure ⟨base, c.workspace, algorithm, timeout⟩) := by
    rw [toJson_eq]
    rfl
  rw [hentries, ofName_name, timeoutOf_eq_ok_iff.2 (number?_toString hc.timeout), reread, baseOf,
    hc.trimmedBase_eq]
  split <;> rfl

/-- A settled configuration is read back from the text of its record as it is from the record. -/
theorem Settled.ofText_render_toJson (hc : c.Settled) (env : Environment) :
    ofText env c.toJson.render = c.reread := by
  have hparse : Json.parse? c.toJson.render = some c.toJson := by
    rw [toJson_eq]
    refine Json.parse?_render ?_ c.pairwise_members
    simp only [members, List.forall_mem_cons, List.not_mem_nil, false_imp_iff, implies_true,
      and_true]
    exact ⟨.string _, .string _, .string _, .whole hc.timeout⟩
  rw [ofText, hparse]
  exact hc.ofJson_toJson env

/-! ### Configurations that have been read -/

/-- What is known of a configuration that has been read from a JSON value. -/
structure ReadsBack (env : Environment) (json : Json) (c : Configuration) : Prop where
  /-- No slash is left at the end of the base. -/
  base_end : ∀ front, c.base.toList ≠ front ++ ['/']
  /-- Nothing is left of the base just if its entry is made of slashes. -/
  base_eq_empty_iff : c.base = "" ↔
    ∃ text, entry env json "baseUrl" = .ok (some text) ∧ ∀ mark ∈ text.toList, mark = '/'
  /-- Its record is read back, whatever the environment holds. -/
  ofJson : ∀ env', Configuration.ofJson env' c.toJson = c.reread
  /-- So is the text of its record. -/
  ofText : ∀ env', Configuration.ofText env' c.toJson.render = c.reread

/-- Nothing is left of the base just if its entry is made of slashes. -/
theorem base_eq_empty_iff_of_ofJson (h : ofJson env json = .ok c) :
    c.base = "" ↔
      ∃ text, entry env json "baseUrl" = .ok (some text) ∧ ∀ mark ∈ text.toList, mark = '/' := by
  have hempty (text : String) : trimmedBase text = "" ↔ ∀ mark ∈ text.toList, mark = '/' := by
    rw [trimmedBase, ← Text.trimEnd_eq_nil_iff, ← String.toList_inj, String.toList_ofList]
    rfl
  rcases entryOr_eq_ok_iff.1 (exists_of_ofJson h).1 with ⟨hentry, hstandard⟩ | ⟨text, hentry, hread⟩
  · rw [hentry, ← hstandard]
    simp [standard, defaultBase]
  · rw [hentry, ← (baseOf_eq_ok_iff.1 hread).2, hempty]
    simp

/-- **Every configuration that is read is read back**, unless nothing is left of its base. -/
theorem readsBack_of_ofJson (h : ofJson env json = .ok c) : c.ReadsBack env json where
  base_end := (settled_of_ofJson h).base
  base_eq_empty_iff := base_eq_empty_iff_of_ofJson h
  ofJson := (settled_of_ofJson h).ofJson_toJson
  ofText := (settled_of_ofJson h).ofText_render_toJson

/-- An environment with one variable. -/
def holding (name value : String) : Environment := fun k => if k = name then some value else none

/-- A base that is taken from a variable, with other entries in spellings of their own. -/
def relocated : Json :=
  .ofMembers
    [("baseUrl", .ofMembers [("envVar", .string baseVariable)]),
      ("digestAlgorithm", .string "sha256"), ("transactionTimeoutSecs", .string "+060")]

/-- What has been read from a variable is read back where the variable is not set. -/
theorem readsBack_of_ofJson_relocated :
    let env := holding baseVariable "http://example.org/rest//"
    let c : Configuration := ⟨"http://example.org/rest", "default", .sha256, 60⟩
    ofJson env relocated = .ok c ∧ c.ReadsBack env relocated ∧
      ofJson (fun _ => none) c.toJson = .ok c := by
  intro env c
  have hread : ofJson env relocated = .ok c := by rfl
  have hback := readsBack_of_ofJson hread
  exact ⟨hread, hback, (hback.ofJson _).trans (if_neg (by decide))⟩

/-- A base of slashes alone is accepted, and nothing is left of it.  It is not read back. -/
theorem not_forall_readsBack :
    ¬∀ (env : Environment) (json : Json) (c : Configuration), ofJson env json = .ok c →
      c.base ≠ "" ∧ (∀ front, c.base.toList ≠ front ++ ['/']) ∧ ofJson env c.toJson = .ok c := by
  intro hall
  have hread : ofJson (fun _ => none) (.ofMembers [("baseUrl", .string "/")]) =
      .ok ⟨"", "default", .sha1, 180⟩ := by rfl
  exact (hall _ _ _ hread).1 rfl

end LinkedStore.Configuration
