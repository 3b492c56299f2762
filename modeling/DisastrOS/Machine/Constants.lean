/-!
# Constants of the kernel

The limits, error codes, syscall numbers and flags of `disastrOS_constants.h`.
-/
namespace DisastrOS.Machine

def MAX_NUM_PROCESSES : Int := 1024
def MAX_NUM_RESOURCES : Int := 1024
def MAX_NUM_SEMAPHORES : Int := 1024
def MAX_NUM_MQS : Int := 16
def MAX_NUM_QUEUES : Int := 64
def MAX_NUM_MESSAGES : Int := 128
def MAX_NUM_MESSAGES_PER_MQ : Int := 128
def MAX_MESSAGE_LENGTH : Int := 32
def MAX_NUM_DESCRIPTORS_PER_PROCESS : Int := 32
def MAX_NUM_SEMDESCRIPTORS_PER_PROCESS : Int := 32
def MAX_NUM_MQDESCRIPTORS_PER_PROCESS : Int := 16

def DSOS_SIGCHLD : BitVec 32 := 0x1
def DSOS_SIGHUP : BitVec 32 := 0x2

def DSOS_ESYSCALL_NOT_IMPLEMENTED : Int := -2
def DSOS_EWAIT : Int := -5
def DSOS_ESLEEP : Int := -7
def DSOS_ERESOURCECREATE : Int := -8
def DSOS_ERESOURCEOPEN : Int := -9
def DSOS_ERESOURCENOEXCL : Int := -10
def DSOS_ERESOURCENOFD : Int := -11
def DSOS_ERESOURCECLOSE : Int := -12
def DSOS_ERESOURCEINUSE : Int := -13
def DSOS_ESEMAPHOREOPEN : Int := -14
def DSOS_ESEMAPHORECLOSE : Int := -15
def DSOS_ESEMAPHOREPOST : Int := -16
def DSOS_ESEMAPHOREWAIT : Int := -17
def DSOS_EMQOPEN : Int := -18
def DSOS_EMQCLOSE : Int := -19
def DSOS_EMQREAD : Int := -20
def DSOS_EMQWRITE : Int := -21
def DSOS_EMQUNLINK : Int := -22

def DSOS_MAX_SYSCALLS : Int := 32
def DSOS_CALL_PREEMPT : Int := 1
def DSOS_CALL_FORK : Int := 2
def DSOS_CALL_WAIT : Int := 3
def DSOS_CALL_EXIT : Int := 4
def DSOS_CALL_SPAWN : Int := 5
def DSOS_CALL_SLEEP : Int := 6
def DSOS_CALL_OPEN_RESOURCE : Int := 7
def DSOS_CALL_CLOSE_RESOURCE : Int := 8
def DSOS_CALL_DESTROY_RESOURCE : Int := 9
def DSOS_CALL_SHUTDOWN : Int := 10
def DSOS_CALL_SEMOPEN : Int := 11
def DSOS_CALL_SEMCLOSE : Int := 12
def DSOS_CALL_SEMWAIT : Int := 13
def DSOS_CALL_SEMPOST : Int := 14
def DSOS_CALL_MQOPEN : Int := 15
def DSOS_CALL_MQCLOSE : Int := 16
def DSOS_CALL_MQREAD : Int := 17
def DSOS_CALL_MQWRITE : Int := 18
def DSOS_CALL_MQUNLINK : Int := 19

def DSOS_CREATE : BitVec 32 := 0x1
def DSOS_EXCL : BitVec 32 := 0x4

/-- `flags & f`, as a condition. -/
def hasFlag (flags : Int) (f : BitVec 32) : Bool := BitVec.ofInt 32 flags &&& f != 0

end DisastrOS.Machine
