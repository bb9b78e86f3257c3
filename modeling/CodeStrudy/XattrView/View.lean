import CodeStrudy.Foundation.Getopt
import CodeStrudy.SeekIo.HexDump

/-!
# The viewer of extended attributes

`routines/16.1.xattr_view` prints the extended attributes of its files: the names, and the values as
text or, with the option `-x`, in hexadecimal.  It ends at the first call that fails.  Both this
program and the command `R` of `seek_io` print a `char` with `"%02x"`.

## What is proved

* `viewNames_of_values`: what is printed of a file whose attributes can all be read.
* `hexDump_exact_iff`: the hexadecimal text of either program has two digits for each byte and gives
  the bytes back exactly if all bytes are below 128.  When nothing is read `R` prints the line for
  the end of the file, and no such text.
-/

namespace CodeStrudy
namespace XattrView

open Foundation GetNum SeekIo

/-- What the calls say about a file: the names that `listxattr` puts into the buffer, each up to its
zero byte, and the value of a name. -/
structure XattrFile where
  listxattr : Option (List Word)
  getxattr : Word → Option (List UInt8)

/-- What is printed and whether the program has not been ended. -/
structure Output where
  text : List UInt8
  going : Bool
  deriving DecidableEq

/-- Printed text in front of what follows. -/
def Output.before (text : List UInt8) (o : Output) : Output := { o with text := text ++ o.text }

/-- `printf("value=%.*s\n")`, or the loop over the bytes. -/
def printValue (hexDispaly : Bool) (value : List UInt8) : List UInt8 :=
  ascii "value=" ++ (if hexDispaly then hexText value else cstr value) ++ [0x0a]

def printName (name : Word) : List UInt8 := ascii "    name=" ++ name ++ ascii "; "

/-- The loop over the names of a file. -/
def viewNames (hexDispaly : Bool) (getxattr : Word → Option (List UInt8)) : List Word → Output
  | [] => ⟨[], true⟩
  | name :: names =>
    (getxattr name).elim ⟨printName name, false⟩ fun value =>
      (viewNames hexDispaly getxattr names).before (printName name ++ printValue hexDispaly value)

/-- The loop over the files. -/
def viewFiles (hexDispaly : Bool) (fs : Word → XattrFile) : List Word → Output
  | [] => ⟨[], true⟩
  | file :: files =>
    (fs file).listxattr.elim ⟨[], false⟩ fun names =>
      let view := viewNames hexDispaly (fs file).getxattr names
      if view.going then (viewFiles hexDispaly fs files).before (file ++ [0x0a] ++ view.text)
      else view.before (file ++ [0x0a])

/-- The program; the call for a wrong option ends it with the usage. -/
def main (permute : Bool) (fs : Word → XattrFile) (argv : List Word) : Output :=
  let scan := Getopt.getopt permute (ascii "x") ((argv.take (charArgc argv.length).toNat).drop 1)
  if scan.opts.any (·.letter == 0x3f) then ⟨[], false⟩
  else viewFiles (scan.opts.any (·.letter == 0x78)) fs scan.operands

/-- If all values can be read, the names are printed with their values, one behind the other. -/
theorem viewNames_of_values {hexDispaly : Bool} {getxattr : Word → Option (List UInt8)}
    {value : Word → List UInt8} {names : List Word}
    (h : ∀ name ∈ names, getxattr name = some (value name)) :
    viewNames hexDispaly getxattr names =
      ⟨names.flatMap fun name => printName name ++ printValue hexDispaly (value name), true⟩ := by
  induction names with
  | nil => rfl
  | cons name names ih =>
    rw [List.forall_mem_cons] at h
    rw [viewNames, h.1, Option.elim_some, ih h.2, List.flatMap_cons]
    rfl

/-- **The hexadecimal dump.**  What either program prints of a string of bytes has two digits for
each byte and gives the bytes back exactly if all bytes are below 128. -/
theorem hexDump_exact_iff (bs : List UInt8) :
    (bs ≠ [] → (Exact (dump 0x52) [] bs ↔ ∀ b ∈ bs, b < 0x80)) ∧
      (Exact (printValue true) (ascii "value=") bs ↔ ∀ b ∈ bs, b < 0x80) :=
  ⟨fun _ => exact_iff dump_hex, exact_iff fun _ => rfl⟩

/-- The byte 128. -/
theorem not_hexDump_exact : ¬ ∀ bs : List UInt8,
    (bs ≠ [] → Exact (dump 0x52) [] bs) ∧ Exact (printValue true) (ascii "value=") bs := by
  intro h
  have hlow := (exact_iff dump_hex).mp ((h [0x80]).1 (List.cons_ne_nil _ _))
  exact absurd (hlow 0x80 (List.mem_singleton_self _)) (by decide)

end XattrView
end CodeStrudy
