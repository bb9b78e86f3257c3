import CodeStrudy.FilePerms.PermStr

/-!
# `t_umask`

`routines/15.5.t_umask`: the process sets its mask and creates a file and a directory.  Then it
prints of each what it has asked for, the mask, and what it has been given, three lines without the
special bits, and removes both.

The kernel takes the bits of the mask away from the permissions that are asked for, and adds bits
that tell what has been created.  The directory in which this happens has no default access control
list, and nobody else touches the two names meanwhile.

## What is proved

* `filePermStr_created`: in three lines about something created, what was asked for, the mask and
  what was given agree character by character.
* `tUmask_spec`: this holds of all that the program prints, for any mask and permissions; and it
  comes to its end exactly if none of the two names was taken and no call fails, and then everything
  is as it was but for the mask.
-/

namespace CodeStrudy
namespace FilePerms

def S_IFREG : Mode := 0o100000
def S_IFDIR : Mode := 0o40000

def FILE_PERMS : Mode := S_IRUSR ||| S_IWUSR ||| S_IRGRP ||| S_IWGRP

/-- `S_IRWXU | S_IRWXG | S_IRWXO` -/
def DIR_PERMS : Mode := 0o777

def UMASK_SETTING : Mode := S_IWUSR ||| S_IXUSR ||| S_IWGRP ||| S_IXGRP ||| S_IWOTH ||| S_IXOTH

/-! ## The kernel -/

/-- `MYFILE` and `MYDIR`. -/
inductive Path where
  | myfile
  | mydir
  deriving DecidableEq

/-- What the program finds and changes. -/
structure Sys where
  umask : Mode
  /-- The modes of what the two names stand for, if they stand for something. -/
  file : Option Mode
  dir : Option Mode
  /-- The set-group-ID bit of the current directory, which a new directory inherits. -/
  setgid : Bool

/-- `umask` returns the mask that there was. -/
def setUmask (mask : Mode) (s : Sys) : Mode × Sys := (s.umask, { s with umask := mask &&& 0o777 })

/-- The mode of something created. -/
def created (type keep perms umask : Mode) : Mode := type ||| (perms &&& keep &&& ~~~umask)

/-- `open` with `O_CREAT` and `O_EXCL`.  In this call and the others `ok` tells that the call does
not fail for a reason that is not modelled. -/
def openExcl (ok : Bool) (perms : Mode) (s : Sys) : Option Sys :=
  if ok ∧ s.file = none then
    some { s with file := some (created S_IFREG 0o7777 perms s.umask) }
  else none

def mkdir (ok : Bool) (perms : Mode) (s : Sys) : Option Sys :=
  if ok ∧ s.dir = none then
    let type := S_IFDIR ||| if s.setgid then S_ISGID else 0
    some { s with dir := some (created type 0o1777 perms s.umask) }
  else none

def stat (ok : Bool) (path : Path) (s : Sys) : Option Mode :=
  if ok then
    match path with
    | .myfile => s.file
    | .mydir => s.dir
  else none

def unlink (ok : Bool) (s : Sys) : Option Sys :=
  if ok ∧ s.file ≠ none then some { s with file := none } else none

def rmdir (ok : Bool) (s : Sys) : Option Sys :=
  if ok ∧ s.dir ≠ none then some { s with dir := none } else none

/-! ## The program -/

/-- How the calls of `main` come out. -/
structure Calls where
  openFile : Bool
  mkdir : Bool
  statFile : Bool
  statDir : Bool
  unlink : Bool
  rmdir : Bool

/-- What a `main` of this kind asks for. -/
structure Request where
  mask : Mode
  filePerms : Mode
  dirPerms : Mode

/-- Three lines that are printed. -/
structure Report where
  requested : List Char
  mask : List Char
  actual : List Char

def report (requested mask actual : Mode) : Report :=
  ⟨filePermStr requested 0, filePermStr mask 0, filePermStr actual 0⟩

structure Outcome where
  reports : List Report
  success : Bool
  sys : Sys

/-- `main`, for any mask and permissions. -/
def tUmask (r : Request) (calls : Calls) (s : Sys) : Outcome :=
  let s := (setUmask r.mask s).2
  match openExcl calls.openFile r.filePerms s with
  | none => ⟨[], false, s⟩
  | some s =>
    match mkdir calls.mkdir r.dirPerms s with
    | none => ⟨[], false, s⟩
    | some s =>
      let (perms, s) := setUmask 0 s
      match stat calls.statFile .myfile s with
      | none => ⟨[], false, s⟩
      | some fileMode =>
        let file := report r.filePerms perms fileMode
        match stat calls.statDir .mydir s with
        | none => ⟨[file], false, s⟩
        | some dirMode =>
          let dir := report r.dirPerms perms dirMode
          match unlink calls.unlink s with
          | none => ⟨[file, dir], false, s⟩
          | some s =>
            match rmdir calls.rmdir s with
            | none => ⟨[file, dir], false, s⟩
            | some s => ⟨[file, dir], true, s⟩

def main : Calls → Sys → Outcome := tUmask ⟨UMASK_SETTING, FILE_PERMS, DIR_PERMS⟩

/-- No call fails, and the two names are not taken. -/
structure Free (calls : Calls) (s : Sys) : Prop where
  openFile : calls.openFile
  file : s.file = none
  mkdir : calls.mkdir
  dir : s.dir = none
  statFile : calls.statFile
  statDir : calls.statDir
  unlink : calls.unlink
  rmdir : calls.rmdir

/-! ## The lines -/

/-- **Three lines about something created.**  What was given is shown as what was asked for, without
the characters of the mask. -/
theorem filePermStr_created {type keep : Mode} (htype : type &&& 0o777 = 0)
    (hkeep : keep &&& 0o777 = 0o777) (perms umask : Mode) :
    filePermStr (created type keep perms umask) 0 =
      List.zipWith masked (filePermStr perms 0) (filePermStr umask 0) := by
  have hshown : shown 0 = 0o777 := rfl
  have hzero : ∀ bits : Mode, 0 ||| bits = bits := fun _ => BitVec.zero_or
  rw [← filePermStr_umask, filePermStr_eq_iff, hshown, created, BitVec.and_or_distrib_right, htype,
    hzero]
  calc perms &&& keep &&& ~~~umask &&& 0o777
      = perms &&& (keep &&& 0o777) &&& ~~~umask := by ac_rfl
    _ = perms &&& ~~~umask &&& 0o777 := by rw [hkeep]; ac_rfl

/-- What three lines are to say. -/
def Report.Agrees (mask : Mode) (r : Report) : Prop :=
  r.mask = filePermStr mask 0 ∧ r.actual = List.zipWith masked r.requested r.mask

/-- The process has the mask with its nine bits only. -/
theorem agrees_report {type keep : Mode} (htype : type &&& 0o777 = 0)
    (hkeep : keep &&& 0o777 = 0o777) (perms mask : Mode) :
    (report perms (mask &&& 0o777)
      (created type keep perms (mask &&& 0o777))).Agrees mask := by
  have hmask : filePermStr (mask &&& 0o777) 0 = filePermStr mask 0 := filePermStr_and_shown mask 0
  exact ⟨hmask, filePermStr_created htype hkeep perms _⟩

/-! ## The end of the program -/

/-- The two reports. -/
def fileReport (r : Request) : Report :=
  report r.filePerms (r.mask &&& 0o777) (created S_IFREG 0o7777 r.filePerms (r.mask &&& 0o777))

def dirReport (r : Request) (s : Sys) : Report :=
  report r.dirPerms (r.mask &&& 0o777)
    (created (S_IFDIR ||| if s.setgid then S_ISGID else 0) 0o1777 r.dirPerms (r.mask &&& 0o777))

/-- Nothing failed: both reports are printed and both names are free again. -/
theorem tUmask_of_free {r : Request} {calls : Calls} {s : Sys} (h : Free calls s) :
    tUmask r calls s = ⟨[fileReport r, dirReport r s], true, { s with umask := 0 }⟩ := by
  obtain ⟨hopen, hfile, hmkdir, hdir, hstat, hstatDir, hunlink, hrmdir⟩ := h
  obtain ⟨umask, file, dir, setgid⟩ := s
  subst hfile hdir
  simp [tUmask, setUmask, openExcl, mkdir, stat, unlink, rmdir, hopen, hmkdir, hstat, hstatDir,
    hunlink, hrmdir, fileReport, dirReport]

/-- Something failed: the program exits, having printed at most what it is to print. -/
theorem tUmask_of_not_free {r : Request} {calls : Calls} {s : Sys} (h : ¬ Free calls s) :
    (tUmask r calls s).success = false ∧
      (tUmask r calls s).reports <+: [fileReport r, dirReport r s] := by
  by_cases hopen : calls.openFile ∧ s.file = none
  case neg => simp [tUmask, setUmask, openExcl, hopen]
  by_cases hmkdir : calls.mkdir ∧ s.dir = none
  case neg => simp [tUmask, setUmask, openExcl, hopen, mkdir, hmkdir]
  by_cases hstat : calls.statFile
  case neg => simp [tUmask, setUmask, openExcl, hopen, mkdir, hmkdir, stat, hstat]
  by_cases hstatDir : calls.statDir
  case neg =>
    simp [tUmask, setUmask, openExcl, hopen, mkdir, hmkdir, stat, hstat, hstatDir, fileReport]
  by_cases hunlink : calls.unlink
  case neg =>
    simp [tUmask, setUmask, openExcl, hopen, mkdir, hmkdir, stat, hstat, hstatDir, unlink, hunlink,
      fileReport, dirReport]
  have hrmdir : ¬ calls.rmdir := fun hrmdir => h
    ⟨hopen.1, hopen.2, hmkdir.1, hmkdir.2, hstat, hstatDir, hunlink, hrmdir⟩
  simp [tUmask, setUmask, openExcl, hopen, mkdir, hmkdir, stat, hstat, hstatDir, unlink, hunlink,
    rmdir, hrmdir, fileReport, dirReport]

/-- **What `t_umask` prints.**  For any mask and permissions and any results of its calls: in all
three lines that are printed together what was asked for, the mask and what was given agree
character by character.  The program comes to its end exactly if the two names are free and no call
fails; then it has printed six lines, and the names are free again. -/
theorem tUmask_spec (r : Request) (calls : Calls) (s : Sys) :
    (∀ report ∈ (tUmask r calls s).reports, report.Agrees r.mask) ∧
      (tUmask r calls s).reports.map Report.requested <+:
        [filePermStr r.filePerms 0, filePermStr r.dirPerms 0] ∧
      ((tUmask r calls s).success = true ↔ Free calls s) ∧
      ((tUmask r calls s).success = true → (tUmask r calls s).reports.length = 2 ∧
        (tUmask r calls s).sys = { s with umask := 0 }) := by
  have hall : ∀ report ∈ [fileReport r, dirReport r s], report.Agrees r.mask := by
    refine List.forall_mem_cons.mpr ⟨agrees_report rfl rfl _ _, ?_⟩
    refine List.forall_mem_singleton.mpr (agrees_report ?_ rfl _ _)
    cases s.setgid <;> rfl
  have hrequested : [fileReport r, dirReport r s].map Report.requested =
      [filePermStr r.filePerms 0, filePermStr r.dirPerms 0] := rfl
  by_cases hfree : Free calls s
  · rw [tUmask_of_free hfree]
    exact ⟨hall, hrequested ▸ List.prefix_rfl, iff_of_true rfl hfree, fun _ => ⟨rfl, rfl⟩⟩
  · obtain ⟨hfails, hbegins⟩ := tUmask_of_not_free (r := r) hfree
    rw [hfails, ← hrequested]
    exact ⟨fun report h => hall report (hbegins.subset h), hbegins.map _,
      iff_of_false Bool.false_ne_true hfree, fun h => absurd h Bool.false_ne_true⟩

/-- What is given to the file and the directory of `main`. -/
example : (main ⟨true, true, true, true, true, true⟩ ⟨0o22, none, none, false⟩).reports.map
    (fun r => String.ofList r.actual) = ["r--r-----", "r--r--r--"] := by decide

end FilePerms
end CodeStrudy
