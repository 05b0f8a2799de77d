import Mathlib.Data.List.DropRight
import TurtleServer.Core.Basic
import TurtleServer.Lib.Frames

/-!
# Constants and helpers of the HTTP module (`http/http_utils.h`, `http/http_utils.cpp`)

The string helpers, and the helpers that ask the file system. A `FileSystem` says what the system
finds for a path. `none` as the result of a helper is the end of the process: an exception that leaves
a `noexcept` function, or a failed assertion.
-/

namespace TurtleServer.Http

open Lib

/-! ## Constants -/

def parameterSeparator : Bytes := bytes "&"
def underscore : Bytes := bytes "_"
def space : Bytes := bytes " "
def dot : Bytes := bytes "."
def crlf : Bytes := bytes "\r\n"
def colon : Bytes := bytes ":"
def defaultRoute : Bytes := bytes "index.html"
def cgiBin : Bytes := bytes "cgi-bin"
def cgiPrefix : Bytes := bytes "cgi_temp"

def headerServer : Bytes := bytes "Server"
def serverTurtle : Bytes := bytes "Turtle/1.0"
def headerContentLength : Bytes := bytes "Content-Length"
def headerContentType : Bytes := bytes "Content-Type"
def contentLengthZero : Bytes := bytes "0"
def headerConnection : Bytes := bytes "Connection"
def connectionClose : Bytes := bytes "Close"
def connectionKeepAlive : Bytes := bytes "Keep-Alive"
def httpVersionTurtle : Bytes := bytes "HTTP/1.1"

def mimeHtml : Bytes := bytes "text/html"
def mimeCss : Bytes := bytes "text/css"
def mimePng : Bytes := bytes "image/png"
def mimeJpg : Bytes := bytes "image/jpg"
def mimeJpeg : Bytes := bytes "image/jpeg"
def mimeGif : Bytes := bytes "image/gif"
def mimeOctet : Bytes := bytes "application/octet-stream"

def responseOk : Bytes := bytes "200 OK"
def responseBadRequest : Bytes := bytes "400 Bad Request"
def responseNotFound : Bytes := bytes "404 Not Found"
def responseServiceUnavailable : Bytes := bytes "503 Service Unavailable"

inductive Method
  | get
  | head
  | unsupported
deriving DecidableEq, Repr

inductive Version
  | http11
  | unsupported
deriving DecidableEq, Repr

inductive Extension
  | html
  | css
  | png
  | jpg
  | jpeg
  | gif
  | octet
deriving DecidableEq, Repr

def methodToString : Method → Bytes
  | .get => bytes "GET"
  | .head => bytes "HEAD"
  | .unsupported => bytes "UNSUPPORTED"

def versionToString : Version → Bytes
  | .http11 => bytes "HTTP/1.1"
  | .unsupported => bytes "UNSUPPORTED"

def extensionToString : Extension → Bytes
  | .html => bytes "HTML"
  | .css => bytes "CSS"
  | .png => bytes "PNG"
  | .jpg => bytes "JPG"
  | .jpeg => bytes "JPEG"
  | .gif => bytes "GIF"
  | .octet => bytes "OCTET"

/-! ## Strings -/

/-- The loop of `Split` over what is left of the string. Every round consumes a delimiter, so the
length of the string bounds the rounds. -/
def splitLoop (delim : Bytes) : ℕ → Bytes → List Bytes
  | 0, str => if str.isEmpty then [] else [str]
  | bound + 1, str =>
    match cut delim str with
    | some (token, str) => token :: splitLoop delim bound str
    | none => if str.isEmpty then [] else [str]

/-- `Split`. A delimiter at the end does not start another token. -/
def split (str delim : Bytes) : List Bytes := splitLoop delim str.length str

/-- `Join`. -/
def join (tokens : List Bytes) (delim : Bytes) : Bytes := delim.intercalate tokens

/-- `Trim`: without the characters of `delim` at both ends. -/
def trim (str delim : Bytes) : Bytes :=
  (str.dropWhile fun c => c ∈ delim).rdropWhile fun c => c ∈ delim

/-- `ToUpper`, in the locale of C. -/
def toUpper (str : Bytes) : Bytes := str.map fun c => if 97 ≤ c ∧ c ≤ 122 then c - 32 else c

/-- `Format`. -/
def format (str : Bytes) : Bytes := toUpper (trim str space)

/-- `ToMethod`. -/
def toMethod (methodStr : Bytes) : Method :=
  if format methodStr = methodToString .get then .get
  else if format methodStr = methodToString .head then .head
  else .unsupported

/-- `ToVersion`. -/
def toVersion (versionStr : Bytes) : Version :=
  if format versionStr = versionToString .http11 then .http11 else .unsupported

/-- `ToExtension`. -/
def toExtension (extensionStr : Bytes) : Extension :=
  if format extensionStr = extensionToString .html then .html
  else if format extensionStr = extensionToString .css then .css
  else if format extensionStr = extensionToString .png then .png
  else if format extensionStr = extensionToString .jpg then .jpg
  else if format extensionStr = extensionToString .jpeg then .jpeg
  else if format extensionStr = extensionToString .gif then .gif
  else .octet

/-- `ExtensionToMime`. -/
def extensionToMime : Extension → Bytes
  | .html => mimeHtml
  | .css => mimeCss
  | .png => mimePng
  | .jpg => mimeJpg
  | .jpeg => mimeJpeg
  | .gif => mimeGif
  | .octet => mimeOctet

/-- `IsCgiRequest`. -/
def isCgiRequest (resourceUrl : Bytes) : Bool := (cut cgiBin resourceUrl).isSome

/-- `std::to_string` of a `size_t`. -/
def toDecimal (n : ℕ) : Bytes :=
  if n = 0 then [48] else (Nat.digits 10 n).reverse.map fun d => UInt8.ofNat (48 + d)

/-! ## The file system -/

/-- What is at a path: nothing, a regular file, a regular file of some size that cannot be opened,
something else (a directory, a device), or a path whose status the system refuses to tell. -/
inductive FileStatus
  | absent
  | regular (content : Bytes)
  | unreadable (size : ℕ)
  | other
  | inaccessible
deriving DecidableEq, Repr

abbrev FileSystem := Bytes → FileStatus

/-- Nothing or a regular file. -/
def FileStatus.Plain : FileStatus → Prop
  | .absent => True
  | .regular _ => True
  | .unreadable _ => True
  | .other => False
  | .inaccessible => False

instance : DecidablePred FileStatus.Plain
  | .absent => inferInstanceAs (Decidable True)
  | .regular _ => inferInstanceAs (Decidable True)
  | .unreadable _ => inferInstanceAs (Decidable True)
  | .other => inferInstanceAs (Decidable False)
  | .inaccessible => inferInstanceAs (Decidable False)

/-- A regular file that cannot be opened. -/
def FileStatus.Sealed : FileStatus → Prop
  | .unreadable _ => True
  | _ => False

instance : DecidablePred FileStatus.Sealed
  | .absent => inferInstanceAs (Decidable False)
  | .regular _ => inferInstanceAs (Decidable False)
  | .unreadable _ => inferInstanceAs (Decidable True)
  | .other => inferInstanceAs (Decidable False)
  | .inaccessible => inferInstanceAs (Decidable False)

/-- The bytes of a regular file that can be opened. -/
def FileStatus.content : FileStatus → Bytes
  | .regular content => content
  | _ => []

theorem FileStatus.Plain.absent_or_regular {status : FileStatus} (h : status.Plain)
    (hopens : ¬ status.Sealed) : status = .absent ∨ ∃ content, status = .regular content := by
  cases status with
  | absent => exact .inl rfl
  | regular content => exact .inr ⟨content, rfl⟩
  | unreadable size => exact absurd True.intro hopens
  | other => exact False.elim h
  | inaccessible => exact False.elim h

namespace FileSystem

/-- `IsFileExists`. -/
def isFileExists (disk : FileSystem) (filePath : Bytes) : Option Bool :=
  match disk filePath with
  | .absent => some false
  | .regular _ => some true
  | .unreadable _ => some true
  | .other => some true
  | .inaccessible => none

/-- `CheckFileSize`: only a regular file has a size. -/
def checkFileSize (disk : FileSystem) (filePath : Bytes) : Option ℕ :=
  match disk filePath with
  | .regular content => some content.length
  | .unreadable size => some size
  | _ => none

/-- `LoadFile`: the buffer with the content of the file appended. -/
def loadFile (disk : FileSystem) (filePath buffer : Bytes) : Option Bytes := do
  let _fileSize ← disk.checkFileSize filePath
  match disk filePath with
  | .regular content => return buffer ++ content
  -- the assertion that the file is open
  | _ => none

variable {disk : FileSystem} {filePath content : Bytes}

theorem isFileExists_absent (h : disk filePath = .absent) :
    disk.isFileExists filePath = some false := by
  rw [isFileExists, h]

theorem isFileExists_of_ne (habsent : disk filePath ≠ .absent)
    (htold : disk filePath ≠ .inaccessible) : disk.isFileExists filePath = some true := by
  unfold isFileExists
  cases hdisk : disk filePath with
  | absent => exact absurd hdisk habsent
  | regular content => rfl
  | unreadable size => rfl
  | other => rfl
  | inaccessible => exact absurd hdisk htold

/-- Every regular file has a size. -/
theorem checkFileSize_of_plain (h : (disk filePath).Plain) (hpresent : disk filePath ≠ .absent) :
    ∃ size, disk.checkFileSize filePath = some size := by
  unfold checkFileSize
  cases hdisk : disk filePath with
  | absent => exact absurd hdisk hpresent
  | regular content => exact ⟨content.length, rfl⟩
  | unreadable size => exact ⟨size, rfl⟩
  | other => exact (hdisk ▸ h : FileStatus.Plain .other).elim
  | inaccessible => exact (hdisk ▸ h : FileStatus.Plain .inaccessible).elim

theorem told_of_plain (h : (disk filePath).Plain) : disk filePath ≠ .inaccessible := by
  intro hdisk
  rw [hdisk] at h
  exact h

theorem checkFileSize_regular (h : disk filePath = .regular content) :
    disk.checkFileSize filePath = some content.length := by
  rw [checkFileSize, h]

theorem loadFile_regular (h : disk filePath = .regular content) (buffer : Bytes) :
    disk.loadFile filePath buffer = some (buffer ++ content) := by
  rw [loadFile, checkFileSize_regular h, h]
  rfl

theorem loadFile_unreadable {size : ℕ} (h : disk filePath = .unreadable size) (buffer : Bytes) :
    disk.loadFile filePath buffer = none := by
  rw [loadFile, checkFileSize, h]
  rfl

end FileSystem

/-! ## Decimal numbers -/

/-- Every character is a digit. -/
theorem mem_toDecimal {n : ℕ} {c : UInt8} (hc : c ∈ toDecimal n) :
    ∃ d < 10, c = UInt8.ofNat (48 + d) := by
  unfold toDecimal at hc
  split at hc
  · exact ⟨0, by decide, List.mem_singleton.mp hc⟩
  · obtain ⟨d, hd, rfl⟩ := List.mem_map.mp hc
    exact ⟨d, Nat.digits_lt_base (by decide) (List.mem_reverse.mp hd), rfl⟩

/-- The number that a string of digits stands for. -/
def ofDecimal (str : Bytes) : ℕ := Nat.ofDigits 10 (str.reverse.map fun c => c.toNat - 48)

theorem ofDecimal_toDecimal (n : ℕ) : ofDecimal (toDecimal n) = n := by
  by_cases hn : n = 0
  · subst hn
    decide
  · have hdigits : (Nat.digits 10 n).map (fun d => (UInt8.ofNat (48 + d)).toNat - 48) =
        Nat.digits 10 n := by
      conv_rhs => rw [← List.map_id (Nat.digits 10 n)]
      refine List.map_congr_left fun d hd => ?_
      have hlt : d < 10 := Nat.digits_lt_base (by decide) hd
      rw [UInt8.toNat_ofNat', Nat.mod_eq_of_lt (by omega), Nat.add_sub_cancel_left]
      rfl
    rw [ofDecimal, toDecimal, if_neg hn, ← List.map_reverse, List.reverse_reverse, List.map_map]
    exact (congrArg (Nat.ofDigits 10) hdigits).trans (Nat.ofDigits_digits 10 n)

theorem toDecimal_injective : Function.Injective toDecimal :=
  Function.LeftInverse.injective ofDecimal_toDecimal

end TurtleServer.Http
