import ThreadAffinity.Grouped.Request

/-!
# Transcripts of a grouped system

Each request is written as a native call with its arguments and, where the reply
carries something, what it came back with. Of a buffer only the length is shown.
-/

namespace ThreadAffinity

namespace Grouped

def callLine : (request : Request) → Reply request → String
  | .query buffer length, reply =>
    "get_logical_processor_group_information(" ++ toString buffer.length ++ ", " ++
      toString length ++ ") = " ++ Verdict.text (QueryReply.verdict reply)
  | .bind thread affinity, verdict =>
    "set_thread_group_affinity(" ++ thread.name ++ ", " ++ toString affinity.group ++ ", " ++
      affinity.mask.hex ++ ") = " ++ Verdict.text verdict
  | .currentThread, thread => "current_thread() = " ++ Thread.name thread

end Grouped

end ThreadAffinity
