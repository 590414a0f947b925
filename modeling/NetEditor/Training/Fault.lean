-- What can go wrong on the way to the training service and back. What is said of a text that is no
-- JSON is up to whoever reads it, and so is what is said of a file or a network; these words are
-- carried along as they come.
import NetEditor.Numeric.Layout
import NetEditor.Sample.Batch

namespace NetEditor.Training

/-- Why a response is not readable. -/
inductive Unreadable
  | notJson (complaint : String)
  | notObject
  | lossNotNumeric
deriving DecidableEq, Repr

def Unreadable.text : Unreadable → String
  | notJson complaint => complaint
  | notObject => "响应不是 JSON 对象"
  | lossNotNumeric => "loss_history 中含有非数字项"

/-- What is wrong with a schedule. -/
inductive ScheduleFault
  | epochs (n : Nat)
  | learningRate (x : Double)
deriving DecidableEq

def ScheduleFault.text : ScheduleFault → String
  | epochs n => "epochs须≥1，实际为" ++ toString n
  | learningRate x => "learningRate须为大于0的有限值，实际为" ++ x.messageText

/-- What is wrong with settings. -/
inductive SettingsFault
  | notJson (complaint : String)
  | noEndpoint
  | noTimeout
  | timeoutText (raw : String)
deriving DecidableEq, Repr

def SettingsFault.text : SettingsFault → String
  | notJson complaint => complaint
  | noEndpoint => "服务地址不能为空"
  | noTimeout => "超时时间须大于0"
  | timeoutText raw => "LAYER_CANVAS_TIMEOUT_SECS须为正整数，实际为“" ++ raw ++ "”"

inductive Fault
  | unreadable (reason : Unreadable) (raw : String)
  | network (reason : String)
  | schedule (fault : ScheduleFault)
  | notWritten (reason : String)
  | data (fault : BatchFault)
  | settings (fault : SettingsFault)
  | file (reason : String)
deriving DecidableEq

def Fault.message : Fault → String
  | unreadable reason raw => "训练服务响应无法解析（" ++ reason.text ++ "）：" ++ raw
  | network reason => "网络请求失败: " ++ reason
  | schedule fault => "超参数不合法: " ++ fault.text
  | notWritten reason => "请求序列化失败: " ++ reason
  | data fault => "训练数据错误: " ++ fault.message
  | settings fault => "配置错误: " ++ fault.text
  | file reason => "IO错误: " ++ reason

end NetEditor.Training
