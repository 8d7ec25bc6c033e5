import ExamplePrograms.Java.Sekure

/-!
# A wrong password

`Sekure.main` opens the new file before it compares the password with the stored hash, and deletes it
when they differ. This module says for which directories that changes nothing
(`wrong_password_unchanged_iff`). The encrypted file is one of the working directory, or one of another
directory: `mainElsewhere` is `main` with such a file. The new file is in the working directory in
either case.
-/

set_option autoImplicit false

namespace ExamplePrograms.Java

variable {Key : Type} (p : Platform Key)

/-- The working directory and the content of a file elsewhere, whose last name is `name`, after `main`. A
new file that is renamed to it is not in the working directory any more. -/
def mainElsewhere (pass name : JString) (content : List UInt8) (dir : Dir) : Dir × List UInt8 :=
  match p.generateSecret pass with
  | none => (dir, content)
  | some key =>
      if isSekureFile p content then
        match newFileName name with
        | none => (dir, content)
        | some newFile =>
            if creatable newFile then
              match openFile p key pass content with
              | .exception written => (dir.write newFile written, content)
              | .incorrectPassword => (dir.delete newFile, content)
              | .data bytes => (dir.delete newFile, bytes)
            else (dir, content)
      else
        let newFile := name ++ sekSuffix
        if creatable newFile then (dir.delete newFile, sealed p key pass content)
        else (dir, content)

/-- The password hash in an encrypted file. -/
def storedHash (content : List UInt8) : Option (List UInt8) :=
  match readLines [] (p.decode content) with
  | [] => none
  | line :: _ => if line.length < 4 then none else p.decodeBuffer (line.drop 4)

/-- Nothing has the name of the file that would be decrypted to, or that file is not opened at all. -/
def NameFree (pass name : JString) (dir : Dir) : Prop :=
  p.generateSecret pass = none ∨
    ∀ newFile, newFileName name = some newFile → creatable newFile = true → dir newFile = none

/-- Deleting changes nothing exactly when there is no such file. -/
theorem Dir.delete_eq_self_iff (dir : Dir) (name : JString) :
    dir.delete name = dir ↔ dir name = none := by
  constructor
  · intro h
    rw [← h]
    exact if_pos rfl
  · intro h
    funext other
    by_cases hother : other = name
    · subst hother
      exact (if_pos rfl).trans h.symm
    · exact dir.delete_other hother

section Wrong

variable {p} {pass name : JString} {content encpass : List UInt8} {dir : Dir}
  (hstored : storedHash p content = some encpass) (hwrong : encpass ≠ getPasswordHash p pass)

include hstored hwrong

/-- The rest of the file is not read. -/
theorem openFile_wrong (key : Key) : openFile p key pass content = .incorrectPassword := by
  rw [storedHash] at hstored
  rw [openFile]
  split
  · next hlines =>
    rw [hlines] at hstored
    cases hstored
  · next line lines hlines =>
    rw [hlines] at hstored
    dsimp only at hstored
    split at hstored
    · cases hstored
    · next hlength =>
      rw [if_neg hlength, hstored]
      exact if_neg hwrong

variable (hlooks : isSekureFile p content = true)

include hlooks

/-- What becomes of the working directory: the file that would be decrypted to is deleted. -/
theorem mainElsewhere_wrong :
    mainElsewhere p pass name content dir = (dir, content) ↔ NameFree p pass name dir := by
  rw [mainElsewhere, NameFree]
  cases hkey : p.generateSecret pass with
  | none => simp
  | some key =>
    dsimp only
    rw [if_pos hlooks]
    cases hnew : newFileName name with
    | none => simp
    | some newFile =>
      dsimp only
      by_cases hcreatable : creatable newFile = true
      · rw [if_pos hcreatable, openFile_wrong hstored hwrong key]
        simp [Dir.delete_eq_self_iff, hcreatable]
      · simp [hcreatable]

/-- A file of the working directory is treated as one elsewhere. -/
theorem main_wrong (hfile : dir name = some content) :
    main p pass name dir = (mainElsewhere p pass name content dir).1 := by
  rw [main, hfile, mainElsewhere]
  dsimp only
  cases p.generateSecret pass with
  | none => rfl
  | some key =>
    dsimp only
    rw [if_pos hlooks, if_pos hlooks, decryptFile]
    cases newFileName name with
    | none => rfl
    | some newFile =>
      dsimp only
      rw [openFile_wrong hstored hwrong key]
      split <;> rfl

/-- A run with a wrong password elsewhere leaves the file of that name. -/
theorem mainElsewhere_wrong_content : (mainElsewhere p pass name content dir).2 = content := by
  rw [mainElsewhere]
  cases p.generateSecret pass with
  | none => rfl
  | some key =>
    dsimp only
    rw [if_pos hlooks]
    cases newFileName name with
    | none => rfl
    | some newFile =>
      dsimp only
      rw [openFile_wrong hstored hwrong key]
      split <;> rfl

/-- **When a wrong password changes nothing.** The encrypted file is one of the working directory or not;
a file with the name that it would be decrypted to is lost. -/
theorem wrong_password_unchanged_iff :
    (dir name = some content → (main p pass name dir = dir ↔ NameFree p pass name dir)) ∧
      (mainElsewhere p pass name content dir = (dir, content) ↔ NameFree p pass name dir) := by
  have helse : mainElsewhere p pass name content dir = (dir, content) ↔ NameFree p pass name dir :=
    mainElsewhere_wrong hstored hwrong hlooks
  refine ⟨fun hfile => ?_, helse⟩
  rw [main_wrong hstored hwrong hlooks hfile, ← helse, Prod.ext_iff]
  have hcontent : (mainElsewhere p pass name content dir).2 = content :=
    mainElsewhere_wrong_content hstored hwrong hlooks
  exact ⟨fun h => ⟨h, hcontent⟩, And.left⟩

end Wrong

/-- `sek!` and the digest of `hi`, with no line behind them. -/
def hiHeader : List UInt8 :=
  sekMark ++ [83, 102, 97, 75, 88, 73, 83, 84, 55, 67, 119, 76, 57, 73, 109, 67, 72, 67, 72, 56, 79, 119,
    61, 61, 10]

/-- The digest of `hi`. -/
def hiHash : List UInt8 :=
  [0x49, 0xf6, 0x8a, 0x5c, 0x84, 0x93, 0xec, 0x2c, 0x0b, 0xf4, 0x89, 0x82, 0x1c, 0x21, 0xfc, 0x3b]

/-- The digest that stands in the header. -/
theorem storedHash_hiHeader : storedHash abcPlatform hiHeader = some hiHash := by decide

/-- The digest is not that of the password. -/
theorem hiHash_ne : hiHash ≠ getPasswordHash abcPlatform (chars abc) := by decide

/-- The password `abc` for a file of the password `hi`, which is alone in the directory. -/
theorem wrong_password_unchanged_note :
    let dir := oneFile noteTxt hiHeader
    (dir noteTxt = some hiHeader →
        (main abcPlatform (chars abc) noteTxt dir = dir ↔
          NameFree abcPlatform (chars abc) noteTxt dir)) ∧
      (mainElsewhere abcPlatform (chars abc) noteTxt hiHeader dir = (dir, hiHeader) ↔
        NameFree abcPlatform (chars abc) noteTxt dir) :=
  wrong_password_unchanged_iff storedHash_hiHeader hiHash_ne rfl

/-- A file `note.txt.dec` is lost. -/
theorem decrypted_name_lost :
    let dir := (oneFile noteTxt hiHeader).write (noteTxt ++ decSuffix) hi
    abcPlatform.Lawful ∧ dir noteTxt = some hiHeader ∧ isSekureFile abcPlatform hiHeader = true ∧
      storedHash abcPlatform hiHeader = some hiHash ∧ hiHash ≠ getPasswordHash abcPlatform (chars abc) ∧
      dir (noteTxt ++ decSuffix) = some hi ∧
      main abcPlatform (chars abc) noteTxt dir (noteTxt ++ decSuffix) = none := by
  refine ⟨abcPlatform_lawful, by decide, rfl, storedHash_hiHeader, hiHash_ne, by decide, by decide⟩

end ExamplePrograms.Java
