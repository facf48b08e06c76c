import Cue.Lib.Threads

/-! `internal/api/api.go`: how the admin API decides who may use it. Every request
looks whether the auth file has changed, loads it if so, and then looks its token up
in what was loaded last. Requests are served at the same time; each one takes the
sections below one after the other, and between them others take theirs and the file
may be written. -/
namespace Cue.Api
open Cue.Lib

structure Token where
  token : String
  role : String
deriving Repr, DecidableEq

structure AuthConfig where
  tokens : List Token
deriving Repr, DecidableEq

/-- The auth file as a request finds it; `none` stands for text that is not the YAML
of a config. Times count from the zero time. -/
inductive AuthFile where
  | missing
  | present (modTime : Int) (config : Option AuthConfig)
deriving Repr, DecidableEq

namespace AuthFile

def modTime : AuthFile → Option Int
  | .missing => none
  | .present modTime _ => some modTime

def config : AuthFile → Option AuthConfig
  | .missing => none
  | .present _ config => config

/-- The times say that the one file was written before the other. -/
def before (file later : AuthFile) : Bool :=
  match file.modTime, later.modTime with
  | some m, some n => decide (m < n)
  | _, _ => true

/-- A file that is written after these ones gets a later time than they have. -/
def follows (file : AuthFile) (earlier : List AuthFile) : Bool :=
  file.modTime.all (decide <| 0 < ·) && earlier.all (·.before file)

end AuthFile

/-- What the requests share: the file with what it was before, and what was loaded. -/
structure AdminAPI where
  earlier : List AuthFile
  authFile : AuthFile
  authConfig : Option AuthConfig
  authModTime : Int

inductive AuthReply where
  | error (status : Nat) (body : String)
  /-- the request goes on to its handler -/
  | next
deriving Repr, DecidableEq

/-- Where a call of `loadAuthConfig` stands, with what it holds in its locals. -/
inductive LoadPhase where
  | called
  | statted (modTime : Int)
  | reading (modTime : Int)
  | storing (modTime : Int) (config : AuthConfig)
  | returned (ok : Bool)

inductive AuthPhase where
  /-- someone who writes the file -/
  | editing
  | received (header : String) (requiredRoles : List String)
  /-- in `loadAuthConfig`, for a token and the roles it must have, or for `NewAdminAPI` -/
  | loading (request : Option (String × List String)) (load : LoadPhase)
  | replied (reply : AuthReply)

inductive AuthOp where
  | proceed
  | write (file : AuthFile)

def errorBody (message : String) : String := "\x7b\"error\": \"" ++ message ++ "\"\x7d"

/-- `Bearer ` is taken off if something follows it. -/
def bearerToken (header : String) : String :=
  if header.toList.length > 7 ∧ header.toList.take 7 = "Bearer ".toList then .ofList (header.toList.drop 7) else header

/-- The role of the first entry with this token. -/
def AuthConfig.role (config : AuthConfig) (token : String) : Option String :=
  (config.tokens.find? fun entry => entry.token == token).map (·.role)

/-- What `authMiddleware` does with the result of `authenticate`. -/
def authorize (role : Option String) (requiredRoles : List String) : AuthReply :=
  match role with
  | none => .error 401 (errorBody "invalid token")
  | some role => if requiredRoles.contains role then .next else .error 403 (errorBody "insufficient permissions")

namespace AdminAPI

/-- All that the file has been, the present one last. -/
def versions (api : AdminAPI) : List AuthFile := api.earlier ++ [api.authFile]

/-- The number of the present version. -/
def version (api : AdminAPI) : Nat := api.earlier.length

def new (file : AuthFile) : AdminAPI := ⟨[], file, none, 0⟩

/-- One section of `loadAuthConfig`: the stat, the comparison with the time of what
is loaded (which is not locked), the read, and the two assignments under the lock. -/
def loadAuthConfig (api : AdminAPI) : LoadPhase → Option (AdminAPI × LoadPhase)
  | .called =>
    match api.authFile.modTime with
    | none => some (api, .returned false)
    | some modTime => some (api, .statted modTime)
  | .statted modTime =>
    if api.authModTime < modTime then some (api, .reading modTime) else some (api, .returned true)
  | .reading modTime =>
    match api.authFile.config with
    | none => some (api, .returned false)
    | some config => some (api, .storing modTime config)
  | .storing modTime config => some ({ api with authConfig := some config, authModTime := modTime }, .returned true)
  | .returned _ => none

/-- The end of `authenticate`, once the load has returned. -/
def authenticate (api : AdminAPI) (token : String) (loaded : Bool) : Option String :=
  if loaded then api.authConfig.bind (·.role token) else none

/-- One section of a request, or of one of the others. -/
def act (api : AdminAPI) : AuthPhase → AuthOp → Option (AdminAPI × AuthPhase)
  | .editing, .write file => some ({ api with earlier := api.versions, authFile := file }, .editing)
  | .received header requiredRoles, .proceed =>
    if header = "" then some (api, .replied (.error 401 (errorBody "missing authorization header")))
    else some (api, .loading (some (bearerToken header, requiredRoles)) .called)
  | .loading (some (token, requiredRoles)) (.returned ok), .proceed =>
    some (api, .replied (authorize (api.authenticate token ok) requiredRoles))
  | .loading request load, .proceed =>
    (api.loadAuthConfig load).map fun (api, load) => (api, .loading request load)
  | _, _ => none

end AdminAPI

inductive AuthCaller where
  | operator
  | newAdminAPI
  | request (header : String) (requiredRoles : List String)
deriving Repr, DecidableEq

def AuthCaller.begin : AuthCaller → AuthPhase
  | .operator => .editing
  | .newAdminAPI => .loading none .called
  | .request header requiredRoles => .received header requiredRoles

end Cue.Api
