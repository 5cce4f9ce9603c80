import Cutis.Lib.Lines
import Cutis.Server

namespace Cutis

def CUTIS_SERVER_PORT : Int := 6380
def CUTIS_MAX_IDLE_TIME : Int := 60 * 5
def CUTIS_DEFAULT_DBNUM : Int := 16
def CUTIS_CONFIG_LINE_MAX : Nat := 1024

def HASH : UInt8 := 35

inductive LogLevel
  | CUTIS_DEBUG
  | CUTIS_NOTICE
  | CUTIS_WARNING
deriving DecidableEq, Repr

-- The fields of the server a configuration file can set, and the directories the process
-- has changed to, the last one first.
structure ServerConfig where
  port : Int
  max_idle_time : Int
  save_params : List SaveParam
  cwd : List Bytes
  verbosity : LogLevel
  log_file : Option Bytes
  db_num : Int
deriving DecidableEq, Repr

-- The texts of the errors of chdir and fopen, by the count of the lines that were read until
-- the call; none where the call succeeds.
structure ConfigOs where
  chdir : Nat → Bytes → Option Bytes
  fopen : Nat → Bytes → Option Bytes

def appendServerSaveParams (server : ServerConfig) (seconds changes : Int) : ServerConfig :=
  { server with save_params := server.save_params ++ [{ seconds, changes }] }

def resetServerSaveParams (server : ServerConfig) : ServerConfig := { server with save_params := [] }

def initServerConfig : ServerConfig :=
  let server : ServerConfig :=
    { port := CUTIS_SERVER_PORT
      max_idle_time := CUTIS_MAX_IDLE_TIME
      save_params := []
      cwd := []
      verbosity := .CUTIS_DEBUG
      log_file := none
      db_num := CUTIS_DEFAULT_DBNUM }
  let server := appendServerSaveParams server (60 * 60) 1
  let server := appendServerSaveParams server 300 100
  appendServerSaveParams server 60 10000

-- The next line of the file, and the rest of it; none at the end.
def fgets (size : Nat) (fp : Bytes) : Option (Bytes × Bytes) :=
  if fp = [] then none else some (Lines.next (size - 1) LF fp)

section Directives

variable (os : ConfigOs) (count : Nat) (server : ServerConfig)

-- The directives that set a number and test it.
def setPort (arg : Bytes) : ServerConfig × Option Bytes :=
  let server := { server with port := atoi arg }
  if server.port < 1 ∨ server.port > 65535 then (server, some (sdsnew "Invalid port"))
  else (server, none)

def setTimeout (arg : Bytes) : ServerConfig × Option Bytes :=
  let server := { server with max_idle_time := atoi arg }
  if server.max_idle_time < 1 then (server, some (sdsnew "Invalid timeout value"))
  else (server, none)

def setSave (arg1 arg2 : Bytes) : ServerConfig × Option Bytes :=
  let seconds := atoi arg1
  let changes := atoi arg2
  if seconds < 1 ∨ changes < 0 then (server, some (sdsnew "Invalid save parameters"))
  else (appendServerSaveParams server seconds changes, none)

def setDir (arg : Bytes) : ServerConfig × Option Bytes :=
  match os.chdir count arg with
  | some strerror =>
      (server, some (sdsnew "Can't chdir to '" ++ arg ++ sdsnew "': '" ++ strerror ++ sdsnew "'"))
  | none => ({ server with cwd := arg :: server.cwd }, none)

def setLogLevel (arg : Bytes) : ServerConfig × Option Bytes :=
  if arg = sdsnew "debug" then ({ server with verbosity := .CUTIS_DEBUG }, none)
  else if arg = sdsnew "notice" then ({ server with verbosity := .CUTIS_NOTICE }, none)
  else if arg = sdsnew "warning" then ({ server with verbosity := .CUTIS_WARNING }, none)
  else
    (server, some (sdsnew "Invalid log level. Must be one of debug, notice, warning"))

def setLogFile (arg : Bytes) : ServerConfig × Option Bytes :=
  if arg = sdsnew "stdout" then ({ server with log_file := none }, none)
  else
    let server := { server with log_file := some arg }
    match os.fopen count arg with
    | some strerror => (server, some (sdsnew "Can't open the log file: " ++ strerror))
    | none => (server, none)

def setDatabases (arg : Bytes) : ServerConfig × Option Bytes :=
  let server := { server with db_num := atoi arg }
  if server.db_num < 1 then (server, some (sdsnew "Invalid number of databases"))
  else (server, none)

-- One pass of the loop of LoadServerConfig from the split on, with the error if there is one.
-- The words come from a C string, so that strcmp is equality.
def execDirective (argv : List Bytes) : ServerConfig × Option Bytes :=
  let name := sdstolower (argv.getD 0 [])
  let argc := argv.length
  if name = sdsnew "port" ∧ argc = 2 then setPort server (argv.getD 1 [])
  else if name = sdsnew "timeout" ∧ argc = 2 then setTimeout server (argv.getD 1 [])
  else if name = sdsnew "save" ∧ argc = 3 then setSave server (argv.getD 1 []) (argv.getD 2 [])
  else if name = sdsnew "dir" ∧ argc = 2 then setDir os count server (argv.getD 1 [])
  else if name = sdsnew "loglevel" ∧ argc = 2 then setLogLevel server (argv.getD 1 [])
  else if name = sdsnew "logfile" ∧ argc = 2 then setLogFile os count server (argv.getD 1 [])
  else if name = sdsnew "databases" ∧ argc = 2 then setDatabases server (argv.getD 1 [])
  else (server, some (sdsnew "Bad directive or wrong number of arguments"))

end Directives

-- The line without the white space around it, up to a NUL.
def configLine (buf : Bytes) : Bytes := sdstrim (cstr buf) (sdsnew " \t\r\n")

-- The line an error was found in.
structure ConfigError where
  line_num : Int
  line : Bytes
  err : Bytes
deriving DecidableEq, Repr

-- Each line takes a byte at least, so that the length of the file bounds the loop. The count
-- of the lines is for the answers of the system, the number that is printed is an int.
def loadConfigLoop (os : ConfigOs) :
    Nat → Nat → Int → ServerConfig → Bytes → Except Fault (ServerConfig × Option ConfigError)
  | 0, _, _, _, _ => throw .hang
  | fuel + 1, count, line_num, server, fp =>
      match fgets (CUTIS_CONFIG_LINE_MAX + 1) fp with
      | none => return (server, none)
      | some (buf, fp) => do
          let count := count + 1
          let line_num := toInt32 (line_num + 1)
          let line := configLine buf
          if line.head? = some HASH ∨ line = [] then
            loadConfigLoop os fuel count line_num server fp
          else
            match ← sdssplitlen line [SPACE] with
            | none => throw .segv
            | some argv =>
                match execDirective os count server argv with
                | (server, none) => loadConfigLoop os fuel count line_num server fp
                | (server, some err) => return (server, some { line_num, line, err })

-- What is printed on stderr.
def ConfigError.print (e : ConfigError) : Bytes :=
  sdsnew "\n*** FATAL CONFIG FILE ERROR ***\n" ++
    sdsnew "Reading the configuration file, at line " ++ printInt e.line_num ++ sdsnew "\n" ++
    sdsnew ">>> '" ++ e.line ++ sdsnew "'\n" ++ e.err ++ sdsnew "\n"

-- The content of the file is none where fopen fails. The last result is what stderr gets.
def loadServerConfig (os : ConfigOs) (server : ServerConfig) (file : Option Bytes) :
    Except Fault (ServerConfig × CutisStatus × Bytes) :=
  match file with
  | none => return (server, .CUTIS_ERR, [])
  | some file => do
      let (server, err) ← loadConfigLoop os (file.length + 1) 0 0 server file
      match err with
      | none => return (server, .CUTIS_OK, [])
      | some err => return (server, .CUTIS_ERR, err.print)

-- main up to InitServer, with the file named on the command line if there is one. No server
-- is started where there is no result.
def mainConfig (os : ConfigOs) : Option (Option Bytes) → Except Fault (Option ServerConfig)
  | none => return some initServerConfig
  | some file => do
      let (server, status, _) ← loadServerConfig os (resetServerSaveParams initServerConfig) file
      if status = .CUTIS_ERR then return none
      else return some server

end Cutis
