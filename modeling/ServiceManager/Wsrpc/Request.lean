import ServiceManager.Ucl

namespace ServiceManager.Wsrpc

/-- An error of a call. Any `int` may arrive as its code. -/
structure Error where
  errcode : Int32 := 0
  errmsg : String := ""
deriving DecidableEq

namespace Error

def kSuccess : Int32 := 0
def kWSREMethodNotFound : Int32 := -32601
def kInvalidParameters : Int32 := -32602
def kReplyTimeout : Int32 := -32500
def kLocalDeserialisationFailure : Int32 := -32501

def invalidParams : Error where
  errcode := kInvalidParameters
  errmsg := "Invalid method parameter(s)."

def methodNotFound : Error where
  errcode := kWSREMethodNotFound
  errmsg := "The method does not exist / is not available."

def replyTimeout : Error where
  errcode := kReplyTimeout
  errmsg := "Timeout waiting for server to reply."

end Error

/-- The descriptor of a request: what is asked for, and what the handler leaves. -/
structure Req where
  id : Int32
  methodName : String
  params : Option Ucl
  result : Option Ucl := none
  err : Error := {}

end ServiceManager.Wsrpc
