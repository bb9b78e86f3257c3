import CodeStrudy.Foundation.CInt
import CodeStrudy.Foundation.CString

/-!
# The messages of the talk system

`practice/46.6` is a talk server with its clients.  A client sends three kinds of messages to the
server's queue: it registers its queue under a name, it takes that back when it exits, and it talks
to another client by name.  Here are the two records of `talk_common.h` and what `talk_client.c`
puts into them.

The names are the point to look at.  The client accepts a name that fills its array, and `strncpy`
then copies no zero byte behind it; and `scanf` writes its zero byte behind a first word of that
length into the array of the message's text.
-/

namespace CodeStrudy
namespace Talk

open Foundation

def CLIENT_NUM_MAX : ℕ := 1024
def CLIENT_NAME_LEN : ℕ := 48
def MESSAGE_LEN : ℕ := 4096

def MTYPE_REGISTER : ℕ := 1
def MTYPE_TALK : ℕ := 2
def MTYPE_DELETE : ℕ := 3

/-- `struct taskMsg`, without its type. -/
@[ext] structure TaskMsg where
  targetName : CharArray CLIENT_NAME_LEN
  msg : CharArray MESSAGE_LEN
  deriving DecidableEq

/-- `struct registerMsg`, without its type. -/
structure RegisterMsg where
  clientId : CInt
  clientName : CharArray CLIENT_NAME_LEN
  deriving DecidableEq

/-- A message to the server, by its type. -/
inductive ServerMsg where
  | register (reg : RegisterMsg)
  | talk (recv : TaskMsg)
  | delete (reg : RegisterMsg)
  deriving DecidableEq

/-- The field `mtype`. -/
def ServerMsg.mtype : ServerMsg → ℕ
  | .register _ => MTYPE_REGISTER
  | .talk _ => MTYPE_TALK
  | .delete _ => MTYPE_DELETE

/-! ## Registering -/

/-- A name that the client's check `strlen(argv[1]) > CLIENT_NAME_LEN` lets through. -/
structure Name extends CStr where
  /-- The name has room in the array, with or without a zero byte behind it. -/
  length_le : chars.length ≤ CLIENT_NAME_LEN

/-- The message a client registers with. -/
def registerMsg (clientId : CInt) (name : Name) : RegisterMsg :=
  ⟨clientId, CharArray.strncpy CLIENT_NAME_LEN (name.chars ++ [0])⟩

theorem str_registerMsg (clientId : CInt) (name : Name) :
    (registerMsg clientId name).clientName.str = name.chars := by
  show (CharArray.strncpy CLIENT_NAME_LEN (name.chars ++ [0])).str = name.chars
  rw [CharArray.str_strncpy]
  by_cases hlen : name.chars.length = CLIENT_NAME_LEN
  · rw [List.take_left' hlen]
    exact cstr_of_notMem name.zero_notMem
  · have hle := name.length_le
    rw [List.take_of_length_le (by rw [List.length_append, List.length_singleton]; omega)]
    exact cstr_append_zero name.zero_notMem []

/-! ## Talking -/

/-- What `scanf("%s %s\n", msg.targetName, msg.msg)` finds: the end of the input, one word, or
two. -/
inductive Typed where
  | eof
  | word (name : List UInt8)
  | words (name text : List UInt8)
  deriving DecidableEq

/-- `memset(&msg, 0, sizeof(msg))`. -/
def TaskMsg.zeros : TaskMsg := ⟨CharArray.zeros _, CharArray.zeros _⟩

/-- The first word and its zero byte are written from `targetName` on; what does not fit there goes
into `msg`. -/
def TaskMsg.scanName (m : TaskMsg) (name : List UInt8) : TaskMsg where
  targetName := m.targetName.write (name ++ [0])
  msg := m.msg.write ((name ++ [0]).drop CLIENT_NAME_LEN)

/-- The second word and its zero byte are written from `msg` on. -/
def TaskMsg.scanText (m : TaskMsg) (text : List UInt8) : TaskMsg :=
  { m with msg := m.msg.write (text ++ [0]) }

/-- The message that one round of the client's loop sends. -/
def talkMsg : Typed → TaskMsg
  | .eof => TaskMsg.zeros
  | .word name => TaskMsg.zeros.scanName name
  | .words name text => (TaskMsg.zeros.scanName name).scanText text

end Talk
end CodeStrudy
