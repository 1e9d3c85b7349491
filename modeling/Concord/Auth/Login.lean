import Concord.Base.Alone
import Concord.Base.Counters
import Concord.Base.Dict
import Concord.Models

/-!
# Signing up and logging in

The endpoints of `api/auth.py` over the limiter of `core/login_limiter.py`, served one complete request
after the other. The limiter counts under a normalised username, while an account is looked up by the
exact one, and every failure of Redis lets the login through.

The log has an entry for each login that was served: whether a password was verified and when, and what
the limiter counted.
-/

namespace Concord.Auth

open Concord.Base Async

structure LoginSettings where
  loginMaxFailures : Int := 5
  loginLockoutSeconds : Int := 900

/-- What the endpoints use of Python's texts, of `hashlib`, of `passlib` and of the token encoder. -/
structure Library where
  strip : String → String
  casefold : String → String
  /-- `hashlib.sha256(….encode("utf-8")).hexdigest()`. -/
  sha256 : String → String
  /-- `hash_password`, with the salt it draws. -/
  hashPassword : String → String → String
  verifyPassword : String → String → Bool
  /-- `create_access_token`, of a subject at a time. -/
  createAccessToken : UserId → Nat → String

/-- `_key`. -/
def Library.key (lib : Library) (username : String) : String :=
  "login:failures:" ++ lib.sha256 (lib.casefold (lib.strip username))

/-- A row of `users`. -/
structure User where
  id : UserId
  username : String
  email : String
  passwordHash : String
deriving DecidableEq, Repr

structure UserOut where
  id : UserId
  username : String
  email : String
deriving DecidableEq, Repr

structure TokenOut where
  accessToken : String
  tokenType : String := "bearer"
  user : UserOut
deriving DecidableEq, Repr

structure UserCreate where
  username : String
  email : String
  password : String

structure UserLogin where
  username : String
  password : String

inductive Error
  | redis
  | database
  | http (status : Nat) (detail : String) (headers : List (String × String) := [])
deriving DecidableEq, Repr

/-- What one login was seen to do. -/
structure Attempt where
  username : String
  /-- The answer of `verify_password`, if it ran. -/
  verified : Option Bool := none
  /-- When it ran. -/
  time : Nat := 0
  /-- What `INCR` gave. -/
  counted : Option Nat := none
  /-- The expiry that `EXPIRE` has set. -/
  expiry : Option Nat := none
deriving DecidableEq, Repr

/-- The accounts, by their unique username, and the limiter's counters. -/
structure Site where
  users : Dict String User
  redis : Counters String := fun _ => none
  redisUp : Bool := true
  /-- In milliseconds. -/
  now : Nat := 0
  nextUser : UserId := 1
  /-- The login being served. -/
  current : Attempt := { username := "" }
  log : List Attempt := []

inductive Op
  | get (key : String)
  | ttl (key : String)
  | expire (key : String) (seconds : Int)
  | incr (key : String)
  | delete (key : String)
  /-- `select(User).where(User.username == …)`. -/
  | selectUser (username : String)
  /-- The id of an account that has the username or the email. -/
  | selectTaken (username email : String)
  | hashPassword (password : String)
  /-- `db.add(user)`, `commit` and `refresh`. -/
  | insertUser (username email passwordHash : String)
  | verifyPassword (password : String) (user : User)
  | createAccessToken (subject : UserId)

@[reducible] def Op.Val : Op → Type
  | get _ => Option Nat
  | ttl _ => Int
  | incr _ => Nat
  | expire _ _ | delete _ => Unit
  | selectUser _ => Option User
  | selectTaken _ _ => Option UserId
  | insertUser _ _ _ => User
  | verifyPassword _ _ => Bool
  | hashPassword _ | createAccessToken _ => String

/-- What the environment decides for an operation: how many milliseconds pass before it, and the salt of
a new hash. -/
structure Moment where
  elapsed : Nat := 0
  salt : String := ""

abbrev Py (α : Type) : Type := Async Error Op Op.Val α

/-- `await`, of one operation. -/
def await (o : Op) : Py o.Val := call o

namespace Site

variable (s : Site)

/-- The site some time later. -/
def later (m : Moment) : Site := { s with now := s.now + m.elapsed }

/-- Whether an account has the username or the email. -/
def taken? (username email : String) : Option UserId :=
  (s.users.items.find? fun item => item.1 = username ∨ item.2.email = email).map fun item => item.2.id

/-- A command that Redis answers, if it can be reached. -/
def onRedis {α : Type} (a : α) (t : Site) : Except Error α × Site :=
  if s.redisUp then (.ok a, t) else (.error .redis, s)

/-- An operation at the site's time. -/
def run (lib : Library) (salt : String) : (o : Op) → Except Error o.Val × Site
  | .get k => s.onRedis ((s.redis.get k s.now).map Counter.count) s
  | .ttl k => s.onRedis (s.redis.ttl k s.now) s
  | .expire k seconds =>
    let redis := s.redis.expire k s.now seconds
    s.onRedis () { s with
      redis := redis
      current := { s.current with expiry := (redis.get k s.now).bind Counter.expiry } }
  | .incr k =>
    let (count, redis) := s.redis.incr k s.now
    s.onRedis count { s with redis := redis, current := { s.current with counted := some count } }
  | .delete k => s.onRedis () { s with redis := s.redis.delete k }
  | .selectUser username => (.ok (s.users.get? username), s)
  | .selectTaken username email => (.ok (s.taken? username email), s)
  | .hashPassword password => (.ok (lib.hashPassword password salt), s)
  | .insertUser username email passwordHash =>
    -- both columns are unique
    if (s.taken? username email).isSome then (.error .database, s)
    else
      let user : User := ⟨s.nextUser, username, email, passwordHash⟩
      (.ok user, { s with users := s.users.set username user, nextUser := s.nextUser + 1 })
  | .verifyPassword password user =>
    let answer := lib.verifyPassword password user.passwordHash
    (.ok answer, { s with current := { s.current with verified := some answer, time := s.now } })
  | .createAccessToken subject => (.ok (lib.createAccessToken subject s.now), s)

end Site

/-- An operation, at the moment the environment decides on. -/
def exec (lib : Library) (o : Op) (m : Moment) (s : Site) : Option (Except Error o.Val × Site) :=
  some ((s.later m).run lib m.salt o)

section Endpoints

variable (cfg : LoginSettings) (lib : Library)

/-- `lockout_seconds_remaining`. -/
def lockoutSecondsRemaining (username : String) : Py Int :=
  tryExcept (do
      let count ← await (.get (lib.key username))
      if ((count.getD 0 : Nat) : Int) < cfg.loginMaxFailures then
        return 0
      let ttl ← await (.ttl (lib.key username))
      if 0 < ttl then
        return ttl
      await (.expire (lib.key username) cfg.loginLockoutSeconds)
      return cfg.loginLockoutSeconds)
    (fun _ => true) fun _ => pure 0

/-- `record_login_failure`. -/
def recordLoginFailure (username : String) : Py Unit :=
  tryExcept (do
      let count ← await (.incr (lib.key username))
      if count = 1 then
        await (.expire (lib.key username) cfg.loginLockoutSeconds))
    (fun _ => true) fun _ => pure ()

/-- `reset_login_failures`. -/
def resetLoginFailures (username : String) : Py Unit :=
  tryExcept (await (.delete (lib.key username))) (fun _ => true) fun _ => pure ()

/-- The token of a user who has logged in or signed up. -/
def tokenOut (user : User) : Py TokenOut := do
  let token ← await (.createAccessToken user.id)
  return { accessToken := token, user := ⟨user.id, user.username, user.email⟩ }

/-- `signup`. -/
def signup (payload : UserCreate) : Py TokenOut := do
  let existing ← await (.selectTaken payload.username payload.email)
  require (existing.getD 0 == 0) (.http 409 "Username or email already in use")
  let passwordHash ← await (.hashPassword payload.password)
  let user ← await (.insertUser payload.username payload.email passwordHash)
  tokenOut user

/-- `login`. -/
def login (payload : UserLogin) : Py TokenOut := do
  let retryAfter ← lockoutSecondsRemaining cfg lib payload.username
  require (retryAfter == 0) (.http 429 "Too many failed login attempts. Try again later."
    [("Retry-After", toString retryAfter)])
  match ← await (.selectUser payload.username) with
  | none =>
    recordLoginFailure cfg lib payload.username
    throw (.http 401 "Invalid credentials")
  | some user =>
    if !(← await (.verifyPassword payload.password user)) then
      recordLoginFailure cfg lib payload.username
      throw (.http 401 "Invalid credentials")
    resetLoginFailures lib payload.username
    tokenOut user

end Endpoints

inductive Request
  | signup (payload : UserCreate)
  | login (payload : UserLogin)

/-- A complete request, and the moments of its operations. -/
structure Turn where
  request : Request
  moments : Nat → Moment := fun _ => {}

section Serving

variable (cfg : LoginSettings) (lib : Library)

/-- Serves one request to its end; a login is logged. -/
def Site.serve (s : Site) (turn : Turn) : Option Site :=
  match turn.request with
  | .signup payload =>
    ((signup payload).run.alone (exec lib) (turn.moments, s)).map (·.2.2)
  | .login payload =>
    ((login cfg lib payload).run.alone (exec lib)
      (turn.moments, { s with current := { username := payload.username } })).map fun (_, _, t) =>
        { t with log := t.log ++ [t.current] }

/-- Complete requests, one after the other, with the given accounts at first. -/
def site (users : Dict String User) : System Site Turn where
  init := { users := users, nextUser := (users.values.map User.id).foldl max 0 + 1 }
  step := Site.serve cfg lib

end Serving

end Concord.Auth
