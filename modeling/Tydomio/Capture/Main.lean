import Tydomio.Capture.Model.Main

/-!
# What a run leaves behind

The guarded part removes what it wrote in every case but one: all was
written (`tidy_guarded`). The directory is created before it, and its mode
restricted; what strikes in between leaves the directory there.
`main_tidy_iff` says exactly when.
-/

namespace Tydomio

open Common

namespace Capture

/-! ## Writing -/

section Write

variable {faults : Faults} {dumps : Dumps} {directory : String} {fs fs' : FileSystem}

theorem get?_writeIn (name text : String) (fs : FileSystem) :
    (writeIn directory name text fs).get? directory =
      some (((fs.get? directory).getD ∅).set name text) :=
  Dict.get?_set_self _ _ _

/-- Writing is in the directory alone. -/
theorem get?_writeIn_of_ne (name text : String) (fs : FileSystem) {path : String}
    (h : path ≠ directory) : (writeIn directory name text fs).get? path = fs.get? path :=
  Dict.get?_set_of_ne _ _ h

variable (faults dumps) in
theorem get?_writeDocument_of_ne (document : String × JsonValue) (fs : FileSystem) {path : String}
    (h : path ≠ directory) :
    (writeDocument faults dumps directory document fs).2.get? path = fs.get? path := by
  rw [writeDocument]
  split
  · rfl
  · split
    · rfl
    · split
      · exact get?_writeIn_of_ne _ _ fs h
      · cases faults.partly document.1 with
        | none => rfl
        | some length => exact get?_writeIn_of_ne _ _ fs h

theorem get?_writeAll_of_ne (documents : List (String × JsonValue)) (fs : FileSystem)
    {path : String} (h : path ≠ directory) :
    (writeAll faults dumps directory documents fs).2.get? path = fs.get? path := by
  induction documents generalizing fs with
  | nil => rfl
  | cons document documents ih =>
      have hone := get?_writeDocument_of_ne faults dumps document fs h
      rw [writeAll]
      split
      · rename_i fs' heq
        rw [heq] at hone
        rw [ih, hone]
      · rename_i heq
        rw [heq] at hone
        exact hone

/-- A document that is written is whole. -/
theorem writeDocument_ok {document : String × JsonValue}
    (h : writeDocument faults dumps directory document fs = (.ok (), fs')) :
    ∃ dumped, dumps document.2 = some dumped ∧
      fs' = writeIn directory document.1 (fileText dumped) fs := by
  rw [writeDocument] at h
  split at h
  · cases h
  · rename_i dumped hdumps
    split at h
    · cases h
    · split at h
      · cases h
        exact ⟨dumped, hdumps, rfl⟩
      · cases h

/-- **Documents that are all written are whole**, and the other files of the
directory are left. -/
theorem writeAll_ok {documents : List (String × JsonValue)}
    (hnodup : (documents.map Prod.fst).Nodup)
    (h : writeAll faults dumps directory documents fs = (.ok (), fs')) :
    (∀ document ∈ documents, ∃ dumped, dumps document.2 = some dumped ∧
      ((fs'.get? directory).getD ∅).get? document.1 = some (fileText dumped)) ∧
    ∀ name ∉ documents.map Prod.fst,
      ((fs'.get? directory).getD ∅).get? name = ((fs.get? directory).getD ∅).get? name := by
  induction documents generalizing fs with
  | nil =>
      cases h
      exact ⟨nofun, fun _ _ => rfl⟩
  | cons document documents ih =>
      rw [List.map_cons, List.nodup_cons] at hnodup
      rw [writeAll] at h
      split at h
      · rename_i fs₁ heq
        obtain ⟨dumped, hdumps, rfl⟩ := writeDocument_ok heq
        obtain ⟨hall, hothers⟩ := ih hnodup.2 h
        rw [get?_writeIn] at hothers
        refine ⟨?_, fun name hname => ?_⟩
        · rintro written (_ | ⟨_, hmem⟩)
          · refine ⟨dumped, hdumps, ?_⟩
            rw [hothers _ hnodup.1, Option.getD_some, Dict.get?_set_self]
          · exact hall written hmem
        · rw [List.map_cons, List.mem_cons, not_or] at hname
          rw [hothers name hname.2, Option.getD_some, Dict.get?_set_of_ne _ _ hname.1]
      · cases h

/-- The documents are written in an order of their own, each once. -/
theorem writeCapture_ok {documents : Dict String JsonValue}
    (h : writeCapture faults dumps directory documents fs = (.ok (), fs')) {name : String}
    {document : JsonValue} (hdocument : documents.get? name = some document) :
    ∃ dumped, dumps document = some dumped ∧
      ((fs'.get? directory).getD ∅).get? name = some (fileText dumped) := by
  have hperm : (documents.entries.filter (fun document => document.1 ≠ manifestFile) ++
      documents.entries.filter fun document => document.1 = manifestFile).Perm
        documents.entries := by
    have hsplit := List.filter_append_perm (fun document : String × JsonValue =>
      decide (document.1 ≠ manifestFile)) documents.entries
    simpa using hsplit
  have hnodup := (hperm.map Prod.fst).nodup_iff.2 documents.nodup
  exact (writeAll_ok hnodup h).1 (name, document)
    (hperm.mem_iff.2 (Dict.get?_eq_some_iff.1 hdocument))

end Write

/-! ## The guarded part -/

section Run

variable {sameLetter : Char → Char → Bool} {env : Environment} {secrets : Secrets}
  {directory : String} {fs : FileSystem}

/-- **All documents of the run are whole in its directory.** -/
def Complete (sameLetter : Char → Char → Bool) (env : Environment) (secrets : Secrets)
    (directory : String) (fs : FileSystem) : Prop :=
  ∃ results documents, prepare sameLetter env secrets = .ok (results, documents) ∧
    manifestFile ∈ documents ∧ ∃ files, fs.get? directory = some files ∧
      ∀ name document, documents.get? name = some document →
        ∃ dumped, env.dumps document = some dumped ∧ files.get? name = some (fileText dumped)

/-- **What is prepared to be written** is made of what was fetched, and holds
no secret. -/
theorem prepare_ok {results : Results} {documents : Dict String JsonValue}
    (h : prepare sameLetter env secrets = .ok (results, documents)) :
    runCapture env.run = .ok results ∧ ∃ anonymized,
      anonymize env.texts results.captured = .ok anonymized ∧
      documents = documentsOf env secrets results anonymized ∧
      findSecrets sameLetter secrets documents = [] := by
  rw [prepare] at h
  cases hrun : runCapture env.run with
  | error e =>
      rw [hrun] at h
      cases h
  | ok fetched =>
      rw [hrun] at h
      simp only [bind, Except.bind] at h
      split at h
      · cases h
      · cases hpass : guardedPass env .anonymize with
        | error e =>
            rw [hpass] at h
            cases h
        | ok _ =>
            rw [hpass] at h
            cases hanonymized : anonymize env.texts fetched.captured with
            | error e =>
                rw [hanonymized] at h
                cases h
            | ok anonymized =>
                rw [hanonymized] at h
                cases hscan : guardedPass env .scan with
                | error e =>
                    simp only [hscan] at h
                    cases h
                | ok _ =>
                    simp only [hscan] at h
                    split at h
                    · cases hreport : guardedPass env .report <;> rw [hreport] at h <;> cases h
                    · rename_i hfound
                      cases h
                      exact ⟨rfl, anonymized, hanonymized, rfl, not_not.1 hfound⟩

/-- The manifest is a document. -/
theorem manifest_mem_documents {results : Results} {documents : Dict String JsonValue}
    (h : prepare sameLetter env secrets = .ok (results, documents)) : manifestFile ∈ documents := by
  obtain ⟨-, anonymized, -, rfl, -⟩ := prepare_ok h
  exact Dict.mem_iff.2 ⟨_, Dict.get?_set_self _ _ _⟩

variable (sameLetter env secrets fs) in
/-- A capture changes its directory alone. -/
theorem get?_captureRun_of_ne {path : String} (h : path ≠ directory) :
    (captureRun sameLetter env secrets directory fs).2.2.get? path = fs.get? path := by
  rw [captureRun]
  split
  · rfl
  · rename_i results documents _
    have hframe : (writeCapture env.faults env.dumps directory documents fs).2.get? path =
        fs.get? path := get?_writeAll_of_ne _ fs h
    split
    · rename_i heq
      rw [heq] at hframe
      exact hframe
    · rename_i heq
      rw [heq] at hframe
      split <;> exact hframe

/-- A capture that gives a status has written all. -/
theorem captureRun_ok {status : ℕ} {wrote : Bool} {fs' : FileSystem}
    (h : captureRun sameLetter env secrets directory fs = (.ok status, wrote, fs')) :
    wrote = true ∧ status ≠ 2 ∧ Complete sameLetter env secrets directory fs' := by
  rw [captureRun] at h
  split at h
  · cases h
  · rename_i results documents hprepare
    split at h
    · cases h
    · rename_i written hwrite
      split at h
      · cases h
      · cases h
        have hstatus : (if results.complete = true then 0 else 1) ≠ 2 := by split <;> decide
        refine ⟨rfl, hstatus, results, documents, hprepare, manifest_mem_documents hprepare, ?_⟩
        -- the manifest is in the directory, so there is one
        obtain ⟨manifest, hmanifest⟩ := Dict.mem_iff.1 (manifest_mem_documents hprepare)
        obtain ⟨_, -, hfile⟩ := writeCapture_ok hwrite hmanifest
        cases hfiles : fs'.get? directory with
        | none =>
            rw [hfiles] at hfile
            cases hfile
        | some files =>
            refine ⟨files, rfl, fun name document hdocument => ?_⟩
            obtain ⟨dumped, hdumps, htext⟩ := writeCapture_ok hwrite hdocument
            rw [hfiles] at htext
            exact ⟨dumped, hdumps, htext⟩

variable (env) in
/-- A message is said, or is what the run escapes from. -/
theorem saying_cases (point : Point) (status : ℕ) :
    saying env point status = .returned status ∨ ∃ strike, saying env point status =
      .escaped strike := by
  rw [saying]
  split
  · exact .inl rfl
  · exact .inr ⟨_, rfl⟩

variable (env) in
/-- A run that has a status returns it or is escaped from. -/
theorem guardedEnding_ok (status : ℕ) : guardedEnding env (.ok status) = .returned status ∨
    ∃ strike, guardedEnding env (.ok status) = .escaped strike := by
  rw [guardedEnding]
  split
  · exact .inl rfl
  · exact saying_cases env _ _
  · exact .inr ⟨_, rfl⟩

variable (env) in
/-- One that has none returns that nothing was written. -/
theorem guardedEnding_error (e : Raised) : guardedEnding env (.error e) = .returned 2 ∨
    ∃ strike, guardedEnding env (.error e) = .escaped strike := by
  obtain message | ⟨fault, point⟩ := e
  · exact saying_cases env _ _
  · cases fault with
    | error => exact saying_cases env _ _
    | interruption => exact .inr ⟨_, rfl⟩

variable (sameLetter env secrets directory fs) in
/-- **The guarded part** has written all, or has removed its directory. -/
theorem guarded_cases :
    ((guarded sameLetter env secrets directory fs).wrote = true ∧
      Complete sameLetter env secrets directory (guarded sameLetter env secrets directory fs).fs ∧
      (guarded sameLetter env secrets directory fs).ending ≠ .returned 2) ∨
    ((∀ path, (guarded sameLetter env secrets directory fs).fs.get? path =
        if path = directory then none else fs.get? path) ∧
      ∀ status, (guarded sameLetter env secrets directory fs).ending = .returned status →
        status = 2) := by
  have hreturned : ∀ {e : Raised} {status : ℕ}, guardedEnding env (.error e) = .returned status →
      status = 2 := by
    intro e status h
    rcases guardedEnding_error env e with heq | ⟨strike, heq⟩ <;> rw [heq] at h <;> cases h
    rfl
  cases hclient : guardedPass env .client with
  | error e =>
      have hguarded : guarded sameLetter env secrets directory fs =
          ⟨guardedEnding env (.error e), false, removeDirectory directory fs⟩ := by
        rw [guarded, hclient]
      rw [hguarded]
      exact .inr ⟨Dict.get?_erase fs directory, fun _ => hreturned⟩
  | ok _ =>
      rcases hrun : captureRun sameLetter env secrets directory fs with ⟨outcome, wrote, fs'⟩
      have hframe : ∀ path, path ≠ directory → fs'.get? path = fs.get? path := by
        intro path hpath
        have hsame := get?_captureRun_of_ne sameLetter env secrets fs hpath
        rwa [hrun] at hsame
      cases outcome with
      | error e =>
          have hguarded : guarded sameLetter env secrets directory fs =
              ⟨guardedEnding env (.error e), wrote, removeDirectory directory fs'⟩ := by
            rw [guarded, hclient]
            simp only [hrun]
          rw [hguarded]
          refine .inr ⟨fun path => ?_, fun _ => hreturned⟩
          refine (Dict.get?_erase fs' directory path).trans ?_
          split
          · rfl
          · rename_i hpath
            exact hframe path hpath
      | ok status =>
          have hguarded : guarded sameLetter env secrets directory fs =
              ⟨guardedEnding env (.ok status), wrote, fs'⟩ := by
            rw [guarded, hclient]
            simp only [hrun]
          obtain ⟨rfl, hstatus, hcomplete⟩ := captureRun_ok hrun
          rw [hguarded]
          refine .inl ⟨rfl, hcomplete, fun h => ?_⟩
          rcases guardedEnding_ok env status with heq | ⟨strike, heq⟩
          · exact hstatus (Ending.returned.inj (heq.symm.trans h))
          · cases heq.symm.trans h

/-! ## The whole run -/

/-- **What a run promises**: where it returns that nothing was written, or an
interruption escapes it before all was, the file system is as before; where
it returns another status, all documents are there. -/
structure Tidy (sameLetter : Char → Char → Bool) (env : Environment) (secrets : Secrets)
    (directory : String) (fs : FileSystem) (run : RunResult) : Prop where
  restored : run.ending = .returned 2 ∨
    (∃ point, run.ending = .escaped ⟨.interruption, point⟩) ∧ run.wrote = false →
    ∀ path, run.fs.get? path = fs.get? path
  complete : run.ending = .returned 0 ∨ run.ending = .returned 1 →
    Complete sameLetter env secrets directory run.fs

/-- **A directory is left behind**: it was created, and its mode could not be
restricted, or an interruption came before the run was guarded. -/
def Stranded (faults : Faults) (directory : String) (fs : FileSystem) : Prop :=
  directory ∉ fs ∧ faults.strike .mkdir = none ∧
    (faults.strike .chmod = some .interruption ∨
      faults.strike .chmod = some .error ∧ faults.strike .refusal ≠ some .error ∨
      faults.strike .chmod = none ∧ faults.strike .setup = some .interruption)

/-- The guarded part of a run that created its directory keeps its promise. -/
theorem tidy_guarded (hdirectory : directory ∉ fs) :
    Tidy sameLetter env secrets directory fs
      (guarded sameLetter env secrets directory (fs.set directory ∅)) := by
  rcases guarded_cases sameLetter env secrets directory (fs.set directory ∅) with
    ⟨hwrote, hcomplete, hending⟩ | ⟨hfs, hending⟩
  · refine ⟨?_, fun _ => hcomplete⟩
    rintro (h | ⟨-, h⟩)
    · exact absurd h hending
    · rw [hwrote] at h
      cases h
  · refine ⟨fun _ path => ?_, ?_⟩
    · rw [hfs]
      split
      · rename_i hpath
        rw [hpath, Dict.get?_eq_none_iff.2 hdirectory]
      · rename_i hpath
        exact Dict.get?_set_of_ne _ _ hpath
    · rintro (h | h) <;> cases hending _ h

/-- A run that leaves the file system as it is keeps its promise. -/
theorem tidy_same {ending : Ending} {wrote : Bool}
    (h : ∀ status, ending = .returned status → status = 2) :
    Tidy sameLetter env secrets directory fs ⟨ending, wrote, fs⟩ := by
  refine ⟨fun _ _ => rfl, ?_⟩
  rintro (hending | hending) <;> cases h _ hending

/-- Of a run that an error escapes from nothing is promised. -/
theorem tidy_escaped_error {point : Point} {wrote : Bool} {fs' : FileSystem} :
    Tidy sameLetter env secrets directory fs ⟨.escaped ⟨.error, point⟩, wrote, fs'⟩ := by
  refine ⟨?_, by rintro (h | h) <;> cases h⟩
  rintro (h | ⟨⟨_, h⟩, -⟩) <;> cases h

/-- A run that leaves its empty directory behind breaks its promise. -/
theorem not_tidy_left (hdirectory : directory ∉ fs) {ending : Ending}
    (h : ending = .returned 2 ∨ ∃ point, ending = .escaped ⟨.interruption, point⟩) :
    ¬ Tidy sameLetter env secrets directory fs ⟨ending, false, fs.set directory ∅⟩ := by
  intro htidy
  have hsame := htidy.restored (h.imp_right fun hpoint => ⟨hpoint, rfl⟩) directory
  rw [Dict.get?_set_self, Dict.get?_eq_none_iff.2 hdirectory] at hsame
  cases hsame

/-- The refusal of a directory returns that nothing was written. -/
theorem saying_returned {point : Point} {status status' : ℕ}
    (h : saying env point status = .returned status') : status' = status := by
  rcases saying_cases env point status with heq | ⟨strike, heq⟩ <;> rw [heq] at h <;>
    cases h
  rfl

/-- **A run keeps its promise** unless it leaves its directory behind before
it is guarded. -/
theorem main_tidy_iff (sameLetter : Char → Char → Bool) (env : Environment) (secrets : Secrets)
    (directory : String) (fs : FileSystem) :
    Tidy sameLetter env secrets directory fs (main sameLetter env secrets directory fs) ↔
      ¬ Stranded env.faults directory fs := by
  rw [main, createDirectory, Stranded]
  by_cases hmem : directory ∈ fs
  · rw [if_pos hmem]
    exact iff_of_true (tidy_same fun _ => saying_returned) fun h => h.1 hmem
  · rw [if_neg hmem]
    cases hmkdir : env.faults.strike .mkdir with
    | some fault =>
        have hpass : env.faults.pass .mkdir = .error ⟨fault, .mkdir⟩ := by
          rw [Faults.pass, hmkdir]
        rw [hpass]
        refine iff_of_true ?_ fun h => nomatch h.2.1
        cases fault with
        | error => exact tidy_same fun _ => saying_returned
        | interruption => exact tidy_same nofun
    | none =>
        have hpass : env.faults.pass .mkdir = .ok () := by rw [Faults.pass, hmkdir]
        rw [hpass]
        cases hchmod : env.faults.strike .chmod with
        | none =>
            have hchmodPass : env.faults.pass .chmod = .ok () := by rw [Faults.pass, hchmod]
            rw [hchmodPass]
            cases hsetup : env.faults.strike .setup with
            | none =>
                have hsetupPass : env.faults.pass .setup = .ok () := by rw [Faults.pass, hsetup]
                simp only [hsetupPass]
                exact iff_of_true (tidy_guarded hmem) (by simp)
            | some fault =>
                have hsetupPass : env.faults.pass .setup = .error ⟨fault, .setup⟩ := by
                  rw [Faults.pass, hsetup]
                simp only [hsetupPass]
                cases fault with
                | error => exact iff_of_true tidy_escaped_error (by simp)
                | interruption =>
                    exact iff_of_false (not_tidy_left hmem (.inr ⟨_, rfl⟩)) (by simp [hmem])
        | some fault =>
            have hchmodPass : env.faults.pass .chmod = .error ⟨fault, .chmod⟩ := by
              rw [Faults.pass, hchmod]
            rw [hchmodPass]
            cases fault with
            | interruption =>
                exact iff_of_false (not_tidy_left hmem (.inr ⟨_, rfl⟩)) (by simp [hmem])
            | error =>
                cases hrefusal : env.faults.strike .refusal with
                | none =>
                    have hsaying : saying env .refusal 2 = .returned 2 := by
                      rw [saying, Faults.pass, hrefusal]
                    simp only [hsaying]
                    exact iff_of_false (not_tidy_left hmem (.inl rfl)) (by simp [hmem])
                | some fault =>
                    have hsaying : saying env .refusal 2 = .escaped ⟨fault, .refusal⟩ := by
                      rw [saying, Faults.pass, hrefusal]
                    simp only [hsaying]
                    cases fault with
                    | error => exact iff_of_true tidy_escaped_error (by simp)
                    | interruption =>
                        exact iff_of_false (not_tidy_left hmem (.inr ⟨_, rfl⟩)) (by simp [hmem])

end Run

/-- A run on a file system that keeps no modes. -/
def modeless : Environment where
  run := .clientStopped
  faults := ⟨fun point => if point = .chmod then some .error else none, fun _ => none⟩
  texts := ⟨fun _ => "", fun _ => "", fun _ n => (Text.intText_ne_empty n).symm⟩
  dumps _ := none
  toolVersion := "1.0"
  capturedOn := "2026-01"

/-- **It returns that nothing was written, and leaves its directory.** -/
theorem modeless_not_tidy : ¬ Tidy (· == ·) modeless ⟨"hunter2", none, "001122AABBCC"⟩ "capture" ∅
    (main (· == ·) modeless ⟨"hunter2", none, "001122AABBCC"⟩ "capture" ∅) := by
  have hmain : main (· == ·) modeless ⟨"hunter2", none, "001122AABBCC"⟩ "capture" ∅ =
      ⟨.returned 2, false, Dict.set ∅ "capture" ∅⟩ := rfl
  rw [hmain]
  exact not_tidy_left (Dict.get?_eq_none_iff.1 rfl) (.inl rfl)

end Capture

end Tydomio
