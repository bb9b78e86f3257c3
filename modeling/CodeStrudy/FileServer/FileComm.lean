import CodeStrudy.Foundation.CInt
import CodeStrudy.Foundation.CString

/-!
# The records of the file server

`file_comm.h`, the same in `practice/52.2` and `practice/52.2.b`: what a client asks for, and the
record in which the server sends the file.
-/

namespace CodeStrudy
namespace FileServer

open Foundation

/-- `struct mq_request`. -/
structure MqRequest where
  client_mq_name : CharArray 128
  file_name : CharArray 256
  deriving DecidableEq, Inhabited

/-- `sizeof(struct mq_request)`. -/
def sizeofRequest : ℕ := 384

/-- `struct mq_response`.  The record is always sent whole; `dataLen` says how much of `data` is
meant. -/
structure MqResponse where
  flags : CInt
  data : CharArray 4096
  dataLen : CInt
  deriving DecidableEq, Inhabited

def RESP_FAILE : CInt := 1
def RESP_DATA : CInt := 2
def RESP_END : CInt := 3

end FileServer
end CodeStrudy
