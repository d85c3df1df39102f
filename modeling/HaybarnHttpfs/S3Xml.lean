import HaybarnHttpfs.Foundation.ByteStrings

/-!
The tag scanners that read the XML bodies of S3 responses.
-/

namespace HaybarnHttpfs.S3Xml

open HaybarnHttpfs.Foundation.ByteStrings

def openTag (tag : Bytes) : Bytes := bytes "<" ++ tag ++ bytes ">"

def closeTag (tag : Bytes) : Bytes := bytes "</" ++ tag ++ bytes ">"

/-- The contents of the first `tag` from `curPos` on and the position behind its
close tag. -/
def tryFindTagContents (response tag : Bytes) (curPos : Nat) : Option (Bytes × Nat) :=
  match findFrom (openTag tag) response curPos with
  | none => none
  | some openTagPos =>
      let contentsPos := openTagPos + (openTag tag).length
      match findFrom (closeTag tag) response contentsPos with
      | none => none
      | some closeTagPos =>
          some (substr response contentsPos (closeTagPos - openTagPos - (openTag tag).length),
            closeTagPos + (closeTag tag).length)

/-- `InternalException`. -/
inductive ParseFailure where
  | noMatchingCloseTag (tag : Bytes)
  deriving DecidableEq

/-- The strict variant: an open tag without its close tag is an internal error. -/
def findTagContents (response tag : Bytes) (curPos : Nat) :
    Except ParseFailure (Option (Bytes × Nat)) :=
  match findFrom (openTag tag) response curPos with
  | none => .ok none
  | some _ =>
      match tryFindTagContents response tag curPos with
      | none => .error (.noMatchingCloseTag tag)
      | some found => .ok (some found)

def tryGetS3ErrorCode (body : Bytes) : Option Bytes :=
  if body.isEmpty then none
  else
    match tryFindTagContents body (bytes "Error") 0 with
    | none => none
    | some (errorXml, _) => (tryFindTagContents errorXml (bytes "Code") 0).map Prod.fst

/-- The text that is added to the message of an exception. -/
def parseS3Error (error : Bytes) : Bytes :=
  if error.isEmpty then []
  else
    match tryFindTagContents error (bytes "Error") 0 with
    | none => []
    | some (errorXml, _) =>
        match tryFindTagContents errorXml (bytes "Code") 0,
          tryFindTagContents errorXml (bytes "Message") 0 with
        | some (errorCode, _), some (errorMessage, _) =>
            let extraErrorData :=
              if errorCode = bytes "InvalidAccessKeyId" then
                match tryFindTagContents errorXml (bytes "AWSAccessKeyId") 0 with
                | some (accessKeyId, _) =>
                    bytes "\nInvalid Access Key: \"" ++ accessKeyId ++ bytes "\""
                | none => []
              else []
            bytes "\n\n" ++ errorCode ++ bytes ": " ++ errorMessage ++ extraErrorData
        | _, _ => []

end HaybarnHttpfs.S3Xml
