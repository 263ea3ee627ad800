import VadService.Lib.WordArith

set_option autoImplicit false

/-! # Base64

`encode` and `decode` of `base64.h`, loop by loop. The arrays `char_array_3` and
`char_array_4` are lists that hold the entries written since the last flush.
-/

namespace VadService

namespace Base64

/-- `base64_chars` -/
def base64Chars : List Char :=
  "ABCDEFGHIJKLMNOPQRSTUVWXYZabcdefghijklmnopqrstuvwxyz0123456789+/".toList

/-- `isalnum`, in the C locale -/
def isalnum (c : Char) : Bool :=
  (65 ≤ c.toNat && c.toNat ≤ 90) || (97 ≤ c.toNat && c.toNat ≤ 122) ||
    (48 ≤ c.toNat && c.toNat ≤ 57)

/-- `is_base64` -/
def isBase64 (c : Char) : Bool := isalnum c || c == '+' || c == '/'

/-- `base64_chars.find(c)` as an `unsigned char`: `npos` becomes 255. -/
def find (c : Char) : UInt8 :=
  if c ∈ base64Chars then UInt8.ofNat (base64Chars.idxOf c) else 255

/-! ## Encoding -/

/-- The four entries of `char_array_4` computed from `char_array_3`. -/
def sextets (a b c : UInt8) : List UInt8 :=
  [(a &&& 0xfc) >>> 2,
    ((a &&& 0x03) <<< 4) + ((b &&& 0xf0) >>> 4),
    ((b &&& 0x0f) <<< 2) + ((c &&& 0xc0) >>> 6),
    c &&& 0x3f]

/-- `base64_chars[n]` -/
def charAt (n : UInt8) : Char := base64Chars.getD n.toNat '\x00'

/-- `char_array_4` for `char_array_3` filled up with zeros. -/
def encodeGroup (arr : List UInt8) : List Char :=
  (sextets (arr.getD 0 0) (arr.getD 1 0) (arr.getD 2 0)).map charAt

/-- The loop of `encode`: the bytes left to read, `char_array_3` and `ret`. -/
def encodeLoop : List UInt8 → List UInt8 → List Char → List UInt8 × List Char
  | [], arr, ret => (arr, ret)
  | b :: bytes, arr, ret =>
      let arr := arr ++ [b]
      if arr.length = 3 then encodeLoop bytes [] (ret ++ encodeGroup arr)
      else encodeLoop bytes arr ret

/-- `encode`, of the first `in_len` bytes. -/
def encode (bytesToEncode : List UInt8) (inLen : ℕ) : String :=
  let (arr, ret) := encodeLoop (bytesToEncode.take inLen) [] []
  if arr.length = 0 then String.ofList ret
  else
    String.ofList (ret ++ (encodeGroup arr).take (arr.length + 1) ++
      List.replicate (3 - arr.length) '=')

/-! ## Decoding -/

/-- The three entries of `char_array_3` computed from `char_array_4`. -/
def triple (a b c d : UInt8) : List UInt8 :=
  [(a <<< 2) + ((b &&& 0x30) >>> 4),
    ((b &&& 0xf) <<< 4) + ((c &&& 0x3c) >>> 2),
    ((c &&& 0x3) <<< 6) + d]

/-- `char_array_3` for `char_array_4` filled up with NULs. -/
def decodeGroup (arr : List Char) : List UInt8 :=
  triple (find (arr.getD 0 '\x00')) (find (arr.getD 1 '\x00')) (find (arr.getD 2 '\x00'))
    (find (arr.getD 3 '\x00'))

/-- The loop of `decode`: the characters from `in_` on, `in_len`, `char_array_4` and `ret`.
Behind the last character stands a NUL, which ends the loop. -/
def decodeLoop : List Char → ℤ → List Char → List UInt8 → List Char × List UInt8
  | [], _, arr, ret => (arr, ret)
  | c :: chars, inLen, arr, ret =>
      if inLen ≠ 0 ∧ c ≠ '=' ∧ isBase64 c = true then
        let arr := arr ++ [c]
        if arr.length = 4 then decodeLoop chars (inLen - 1) [] (ret ++ decodeGroup arr)
        else decodeLoop chars (inLen - 1) arr ret
      else (arr, ret)

/-- `decode` -/
def decode (encodedString : String) : List UInt8 :=
  let inLen := WordArith.bits32.toSigned encodedString.length
  let (arr, ret) := decodeLoop encodedString.toList inLen [] []
  ret ++ (decodeGroup arr).take (arr.length - 1)

end Base64

end VadService
