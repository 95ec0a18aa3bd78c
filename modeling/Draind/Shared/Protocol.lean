import Draind.Json.Dump

namespace Draind.Proto

open Draind.Json

def T_HELLO : Bytes := bytes "hello"
def T_CONFIG : Bytes := bytes "config"
def T_IDLE_DIM : Bytes := bytes "idle_dim"
def T_IDLE_SLEEP : Bytes := bytes "idle_sleep"
def T_ACTIVE : Bytes := bytes "active"
def T_INHIBIT : Bytes := bytes "inhibit"
def T_UNINHIBIT : Bytes := bytes "uninhibit"
def T_ACK : Bytes := bytes "ack"
def T_LOCK : Bytes := bytes "lock"
def T_PRE_SLEEP : Bytes := bytes "pre_sleep"
def T_CTL : Bytes := bytes "ctl"
def T_CTL_REPLY : Bytes := bytes "ctl_reply"

def decode (line : Bytes) : Except Exn Value :=
  parse line

def msgType (msg : Value) : Bytes :=
  msg.str (bytes "type") []

-- A message without fields of its own.
def plain (type : Bytes) : Value :=
  Value.null.set (bytes "type") (.string type)

def encodeHello (sessionId : Bytes) (uid : UInt32) : Bytes :=
  dump (((plain T_HELLO).set (bytes "session_id") (.string sessionId)).set (bytes "uid")
    (.int (Int64.ofInt uid.toNat)))

def encodeIdleDim : Bytes :=
  dump (plain T_IDLE_DIM)

def encodeIdleSleep : Bytes :=
  dump (plain T_IDLE_SLEEP)

def encodeActive : Bytes :=
  dump (plain T_ACTIVE)

def encodeInhibit (reason : Bytes) : Bytes :=
  dump ((plain T_INHIBIT).set (bytes "reason") (.string reason))

def encodeUninhibit (reason : Bytes) : Bytes :=
  dump ((plain T_UNINHIBIT).set (bytes "reason") (.string reason))

def encodeConfig (dimTimeout sleepTimeout : Int32) : Bytes :=
  dump (((plain T_CONFIG).set (bytes "dim_timeout") (.int dimTimeout.toInt64)).set
    (bytes "sleep_timeout") (.int sleepTimeout.toInt64))

def encodeAck : Bytes :=
  dump (plain T_ACK)

def encodeLock : Bytes :=
  dump (plain T_LOCK)

def encodePreSleep : Bytes :=
  dump (plain T_PRE_SLEEP)

def encodeCtl (cmd profile : Bytes) : Bytes :=
  let v := (plain T_CTL).set (bytes "cmd") (.string cmd)
  dump (if profile = [] then v else v.set (bytes "profile") (.string profile))

def encodeCtlReply (fields : Value) : Bytes :=
  dump (fields.set (bytes "type") (.string T_CTL_REPLY))

end Draind.Proto
